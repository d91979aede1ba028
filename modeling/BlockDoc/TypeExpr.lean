import BlockDoc.Block.Basic
import BlockDoc.Text.Blank
import BlockDoc.Text.Quoted

/-!
# Type expressions

The type of a variable is an expression such as `list(map(number))`. It may stand in double quotes,
and `list` and `map` alone stand for collections of strings.

## Main definitions

* `TypeExpr` — the types
* `TypeExpr.name` — the name of a type in words
* `TypeExpr.read` — the type that a text denotes
* `TypeExpr.ofAttribute` — the type that an attribute states
-/

namespace BlockDoc

/-- The types without parts. -/
inductive PrimitiveType
  | string
  | number
  | bool
  deriving DecidableEq, Repr

/-- The types of collections of elements of one type. -/
inductive CollectionType
  | list
  | map
  | set
  deriving DecidableEq, Repr

/-- The types whose parts are of no account. -/
inductive StructuralType
  | object
  | tuple
  deriving DecidableEq, Repr

/-- The types. -/
inductive TypeExpr
  | primitive (p : PrimitiveType)
  | any
  | collection (c : CollectionType) (element : TypeExpr)
  | structural (s : StructuralType)
  deriving DecidableEq, Repr

/-- Why an attribute states no type. -/
inductive TypeFault
  | notConstraint (text : String)
  | missingElement (text : String)
  | unknownKeyword (keyword text : String)
  | noExpression (name : String)
  deriving DecidableEq, Repr

/-- The message for an attribute that states no type. -/
def TypeFault.message : TypeFault → String
  | .notConstraint text => "Invalid type constraint: " ++ Text.quoted text
  | .missingElement text => "Missing element type in " ++ Text.quoted text
  | .unknownKeyword keyword text =>
    "Unknown type keyword '" ++ keyword ++ "' in " ++ Text.quoted text
  | .noExpression name => "No type expression for attribute '" ++ name ++ "'"

/-! ## Names -/

/-- The keyword of a primitive type. -/
def PrimitiveType.keyword : PrimitiveType → String
  | .string => "string"
  | .number => "number"
  | .bool => "bool"

/-- The keyword of a collection type. -/
def CollectionType.keyword : CollectionType → String
  | .list => "list"
  | .map => "map"
  | .set => "set"

/-- The collection type of a keyword. -/
def CollectionType.ofKeyword? (cs : List Char) : Option CollectionType :=
  [CollectionType.list, .map, .set].find? fun c => c.keyword.toList = cs

/-- The keyword of a structural type. -/
def StructuralType.keyword : StructuralType → String
  | .object => "object"
  | .tuple => "tuple"

/-- The structural type of a keyword. -/
def StructuralType.ofKeyword? (cs : List Char) : Option StructuralType :=
  [StructuralType.object, .tuple].find? fun s => s.keyword.toList = cs

namespace TypeExpr

/-- The name of a type in words. -/
def name : TypeExpr → String
  | .primitive p => p.keyword
  | .any => "dynamic"
  | .collection c element => c.keyword ++ " of " ++ element.name
  | .structural s => s.keyword

/-! ## Reading -/

/-- A text without the double quotes around it. -/
def unquote (cs : List Char) : List Char :=
  match cs with
  | '"' :: rest => if rest.getLast? = some '"' then Text.trimChars rest.dropLast else cs
  | _ => cs

/-- The text that matters: without outer blanks, and without quotes and the blanks within them. -/
def bare (cs : List Char) : List Char :=
  unquote (Text.trimChars cs)

/-- The types that are denoted by a single word. -/
def words : List (String × TypeExpr) :=
  [("string", .primitive .string), ("number", .primitive .number), ("bool", .primitive .bool),
   ("any", .any), ("list", .collection .list (.primitive .string)),
   ("map", .collection .map (.primitive .string))]

/-- The type that a single word denotes. -/
def ofWord? (cs : List Char) : Option TypeExpr :=
  (words.find? fun w => w.1.toList = cs).map Prod.snd

/-- Whether a character may stand in a keyword. -/
def isKeywordChar (c : Char) : Bool :=
  'a' ≤ c && c ≤ 'z'

/-- A text that is a keyword with something in parentheses after it: the keyword, and what is in the
parentheses. -/
def call? (cs : List Char) : Option (List Char × List Char) :=
  match cs.takeWhile isKeywordChar, (cs.dropWhile isKeywordChar).dropWhile Text.isBlank with
  | c :: keyword, '(' :: rest =>
    if rest.getLast? = some ')' then some (c :: keyword, rest.dropLast) else none
  | _, _ => none

theorem length_trimChars_le (cs : List Char) : (Text.trimChars cs).length ≤ cs.length := by
  simp only [Text.trimChars, Text.trimWhere, List.length_reverse]
  have h := (List.dropWhile_sublist Text.isBlank
    (l := (cs.dropWhile Text.isBlank).reverse)).length_le
  have h' := (List.dropWhile_sublist Text.isBlank (l := cs)).length_le
  rw [List.length_reverse] at h
  omega

theorem length_unquote_le (cs : List Char) : (unquote cs).length ≤ cs.length := by
  unfold unquote
  split
  · split
    · next rest _ =>
      have := length_trimChars_le rest.dropLast
      simp only [List.length_dropLast, List.length_cons] at *
      omega
    · exact Nat.le_refl _
  · exact Nat.le_refl _

/-- Neither trimming nor the removal of quotes makes a text longer. -/
theorem length_bare_le (cs : List Char) : (bare cs).length ≤ cs.length :=
  Nat.le_trans (length_unquote_le _) (length_trimChars_le cs)

/-- What is in the parentheses is shorter than the whole. -/
theorem length_lt_of_call? {cs keyword inner : List Char} (h : call? cs = some (keyword, inner)) :
    inner.length < cs.length := by
  unfold call? at h
  split at h
  · next c _ rest _ hrest =>
    split at h
    · obtain ⟨-, rfl⟩ := Prod.mk.inj (Option.some.inj h)
      have h1 := (List.dropWhile_sublist Text.isBlank (l := cs.dropWhile isKeywordChar)).length_le
      have h2 := (List.dropWhile_sublist isKeywordChar (l := cs)).length_le
      rw [hrest] at h1
      simp only [List.length_cons, List.length_dropLast] at *
      omega
    · simp at h
  · simp at h

/-- The type that a text denotes: a single word, or a keyword with something in parentheses, which
for a collection is again the text of a type. -/
def read (cs : List Char) : Except TypeFault TypeExpr :=
  match ofWord? (bare cs) with
  | some t => .ok t
  | none =>
    match _ : call? (bare cs) with
    | none => .error (.notConstraint (String.ofList cs))
    | some (keyword, inner) =>
      match CollectionType.ofKeyword? keyword, StructuralType.ofKeyword? keyword with
      | some c, _ =>
        if (Text.trimChars inner).isEmpty then .error (.missingElement (String.ofList cs))
        else (read (Text.trimChars inner)).map (.collection c)
      | none, some s => .ok (.structural s)
      | none, none =>
        .error (.unknownKeyword (String.ofList keyword) (String.ofList cs))
termination_by cs.length
decreasing_by
  exact Nat.lt_of_le_of_lt (length_trimChars_le inner)
    (Nat.lt_of_lt_of_le (length_lt_of_call? ‹_›) (length_bare_le cs))

/-- The type that a text denotes. -/
def ofText (s : String) : Except TypeFault TypeExpr :=
  read s.toList

/-! ## Types of variables -/

/-- Why the type of a variable is not known. -/
inductive VariableFault
  /-- The expression is not the text of a type. -/
  | type (fault : TypeFault)
  /-- The value of the expression claims to be a string and is none. -/
  | notText
  deriving DecidableEq, Repr

/-- The type that an attribute states. A quoted type is the value of the attribute, and a bare one
is its expression. -/
def ofAttribute (a : Attribute) : Except VariableFault TypeExpr :=
  let ofExpression (s : String) : Except VariableFault TypeExpr :=
    (ofText s).mapError VariableFault.type
  let ofRaw : Except VariableFault TypeExpr :=
    if a.raw = "" then .error (.type (.noExpression a.name)) else ofExpression a.raw
  match a.value with
  | .string (.str s) => if s = "" then ofRaw else ofExpression s
  | .string payload => if payload.truthy then .error .notText else ofRaw
  | _ => ofRaw

end TypeExpr

end BlockDoc
