import BlockDoc.Datum.Literal
import BlockDoc.Decimal.Text
import BlockDoc.TypedValue.Basic

/-!
# Typed values of native values

Native values are what a program that writes configurations by hand puts into them: beside the data
of the tree formats there are decimal numbers, tuples, and values that are typed already. Mappings
may have keys of any sort.

## Main definitions

* `Native` — the values
* `Native.sameKey` — when two values are one key of a mapping
* `Native.keyText` — the text of a key
* `TypedValue.ofNative` — the typed value of a native value
-/

namespace BlockDoc

/-- A native value. Of a value that has no typed form only the name of its kind matters. -/
inductive Native
  | null
  | bool (b : Bool)
  | int (n : Int)
  | float (x : Binary64)
  | decimal (d : Decimal)
  | str (s : String)
  | list (items : List Native)
  | tuple (items : List Native)
  | map (entries : List (Native × Native))
  | typed (t : TypedValue)
  | untyped (kind : String)

namespace Native

/-- The number that a value equals; truth values equal zero and one. -/
def number? : Native → Option Decimal
  | .bool b => some (.finite false (if b then 1 else 0) 0)
  | .int n => some (.finite (n < 0) n.natAbs 0)
  | .float x => some x.toDecimal
  | .decimal d => some d
  | _ => none

/-- Whether two values without items are the same key. -/
def sameScalar (a b : Native) : Bool :=
  match a, b with
  | .null, .null => true
  | .str s, .str t => s == t
  | a, b =>
    match a.number?, b.number? with
    | some m, some n => m.same n
    | _, _ => false

mutual

/-- Whether two values are the same key: numbers by their value, and tuples item by item. -/
def sameKey : Native → Native → Bool
  | .tuple as, .tuple bs => sameKeys as bs
  | a, b => sameScalar a b

/-- Whether two lists hold the same keys. -/
def sameKeys : List Native → List Native → Bool
  | [], [] => true
  | a :: as, b :: bs => sameKey a b && sameKeys as bs
  | _, _ => false

end

instance : BEq Native := ⟨sameKey⟩

/-- The items of a tuple in parentheses; a single one has a comma after it. -/
def tupleText : List String → String
  | [s] => "(" ++ s ++ ",)"
  | items => "(" ++ Text.joinWith ", " items ++ ")"

mutual

/-- The form of a value within the text of a tuple. -/
def literal : Native → String
  | .null => Datum.null.literal
  | .bool b => (Datum.bool b).literal
  | .int n => (Datum.int n).literal
  | .float x => (Datum.float x).literal
  | .decimal d => "Decimal(" ++ Text.quoted d.text ++ ")"
  | .str s => Text.quoted s
  | .tuple items => tupleText (literals items)
  | .list items => "[" ++ Text.joinWith ", " (literals items) ++ "]"
  | .map entries => "\x7b" ++ Text.joinWith ", " (entryLiterals entries) ++ "\x7d"
  | .typed t => t.typeName
  | .untyped kind => kind

/-- The forms of the items of a list. -/
def literals : List Native → List String
  | [] => []
  | v :: rest => literal v :: literals rest

/-- The forms of the members of a mapping. -/
def entryLiterals : List (Native × Native) → List String
  | [] => []
  | (k, v) :: rest => (literal k ++ ": " ++ literal v) :: entryLiterals rest

end

/-- The text of a value as a key: strings and decimal numbers stand for themselves. -/
def keyText : Native → String
  | .str s => s
  | .decimal d => d.text
  | v => v.literal

end Native

/-- A native value that has no typed form. -/
structure Untyped where
  kind : String
  deriving DecidableEq, Repr

/-- The message for a value that has no typed form. -/
def Untyped.message (u : Untyped) : String :=
  "Cannot build a typed value from " ++ u.kind

namespace TypedValue

mutual

/-- The typed value of a native value: lists and tuples become tuples, mappings become objects, and
numbers are given by their texts. -/
def ofNative : Native → Except Untyped TypedValue
  | .null => .ok (.null .null)
  | .bool b => .ok (.bool (.bool b))
  | .int n => .ok (.number (some (Text.intText n)))
  | .float x => .ok (.number (some x.text))
  | .decimal d => .ok (.number (some d.text))
  | .str s => .ok (.string (.str s))
  | .list items => (ofItems items).map fun ts => .sequence .tuple (some ts)
  | .tuple items => (ofItems items).map fun ts => .sequence .tuple (some ts)
  | .map entries =>
    (ofEntries entries).map fun ms =>
      .record .object (some ((Table.ofList ms).map fun m => (.str m.1, m.2)))
  | .typed t => .ok t
  | .untyped kind => .error ⟨kind⟩
termination_by structural v => v

/-- The typed values of the items of a list. -/
def ofItems : List Native → Except Untyped (List TypedValue)
  | [] => .ok []
  | v :: rest => do
    let t ← ofNative v
    let ts ← ofItems rest
    return t :: ts
termination_by structural items => items

/-- The typed values of the members of a mapping, under the texts of their keys. -/
def ofEntries : List (Native × Native) → Except Untyped (List (String × TypedValue))
  | [] => .ok []
  | (k, v) :: rest => do
    let t ← ofNative v
    let ts ← ofEntries rest
    return (k.keyText, t) :: ts
termination_by structural entries => entries

end

end TypedValue

end BlockDoc
