import BlockDoc.Datum.Basic
import BlockDoc.Text.Blank
import BlockDoc.Text.Digit
import BlockDoc.Text.Lines
import BlockDoc.Validation.Basic

/-!
# Rules for fields

What the fields of the models accept. The rules are lenient: an integer or a truth value may also be
given by its text, and an integral number by a floating-point number.

## Main definitions

* `Rule.string`, `Rule.integer`, `Rule.natural`, `Rule.boolean` — the rules for single values
* `Rule.list`, `Rule.optional` — rules made of other rules
* `Rule.instanceKey` — the rule for what distinguishes the instances of a block
* `Rule.required`, `Rule.defaulted` — fields of a mapping
-/

namespace BlockDoc

/-- What sets the instances of one block apart: a number, or a name. -/
inductive InstanceKey
  | number (n : Int)
  | name (s : String)
  deriving DecidableEq, Repr

namespace Rule

variable {α : Type}

/-! ## Texts -/

/-- A string. -/
def string : Datum → Checked String
  | .str s => .valid s
  | _ => .violated .notString

/-! ## Integers -/

/-- The greatest length of a text that is read as an integer. -/
def longestInteger : Nat := 4300

/-- Digits with at most one underscore between neighbours, up to the first other character: their
values, and what follows them. -/
def takeSpacedDigits : List Char → List Nat × List Char
  | [] => ([], [])
  | '_' :: cs =>
    match cs with
    | [] => ([], ['_'])
    | c :: cs =>
      match Text.asciiDigit? c with
      | some d => (d :: (takeSpacedDigits cs).1, (takeSpacedDigits cs).2)
      | none => ([], '_' :: c :: cs)
  | c :: cs =>
    match Text.asciiDigit? c with
    | some d => (d :: (takeSpacedDigits cs).1, (takeSpacedDigits cs).2)
    | none => ([], c :: cs)

/-- Whether a text is empty or is a point with one or more zeros. -/
def isZeroFraction : List Char → Bool
  | [] => true
  | '.' :: '0' :: zeros => zeros.all (· == '0')
  | _ => false

/-- An unsigned integer: digits, possibly with a fraction that is zero. -/
def readMagnitude? (cs : List Char) : Option Nat :=
  match cs with
  | [] => none
  | c :: _ =>
    if !Text.isAsciiDigit c then none
    else
      let (digits, rest) := takeSpacedDigits cs
      if isZeroFraction rest then some (Text.ofDigits 10 digits) else none

/-- An integer with at most one sign. -/
def readInteger? : List Char → Option Int
  | '+' :: cs => (readMagnitude? cs).map (signed false)
  | '-' :: cs => (readMagnitude? cs).map (signed true)
  | cs => (readMagnitude? cs).map (signed false)

/-- The integer that a text gives, with white space around it ignored. -/
def integerOfText (s : String) : Checked Int :=
  let cs := Text.trimWhere Text.isWhiteSpace s.toList
  if longestInteger < cs.length then .violated .oversizedInteger
  else match readInteger? cs with
    | some n => .valid n
    | none => .violated .unreadableInteger

/-- The least integer of a signed machine word of 64 bits. -/
def leastWord : Int := -9223372036854775808

/-- Whether an integer lies strictly between the bounds of a signed machine word. -/
def withinWord (n : Int) : Bool :=
  leastWord < n && n < -leastWord

/-- The integer that a floating-point number gives. -/
def integerOfFloat (x : Binary64) : Checked Int :=
  if !x.isFinite then .violated .notFinite
  else match x.toInt? with
    | none => .violated .fractional
    | some n => if withinWord n then .valid n else .violated .oversizedInteger

/-- An integer: also a truth value, an integral number, and the text of an integer. -/
def integer : Datum → Checked Int
  | .bool b => .valid (if b then 1 else 0)
  | .int n => .valid n
  | .float x => integerOfFloat x
  | .str s => integerOfText s
  | _ => .violated .notInteger

/-- An integer that is not negative. -/
def natural (d : Datum) : Checked Nat :=
  (integer d).andThen fun n => if n < 0 then .violated .negative else .valid n.toNat

/-! ## Truth values -/

/-- The names of the truth values. -/
def booleanNames : List (String × Bool) :=
  [("0", false), ("off", false), ("f", false), ("false", false), ("n", false), ("no", false),
   ("1", true), ("on", true), ("t", true), ("true", true), ("y", true), ("yes", true)]

/-- The truth value that an integer gives. -/
def booleanOfInt (n : Int) : Checked Bool :=
  if n = 0 then .valid false
  else if n = 1 then .valid true
  else if n = leastWord ∨ withinWord n then .violated .unreadableBoolean
  else .violated .notBoolean

/-- The truth value that a floating-point number gives. -/
def booleanOfFloat (x : Binary64) : Checked Bool :=
  match x.toInt? with
  | some n => if withinWord n then booleanOfInt n else .violated .notBoolean
  | none => .violated .notBoolean

/-- A truth value: also zero and one, and the names of the truth values in letters of any case. -/
def boolean : Datum → Checked Bool
  | .bool b => .valid b
  | .int n => booleanOfInt n
  | .float x => booleanOfFloat x
  | .str s =>
    match Table.find? booleanNames (Text.lowerAscii s) with
    | some b => .valid b
    | none => .violated .unreadableBoolean
  | _ => .violated .notBoolean

/-! ## Rules made of other rules -/

/-- The items of a list, each under its position. -/
def itemsFrom (rule : Datum → Checked α) (position : Nat) : List Datum → Checked (List α)
  | [] => .valid []
  | d :: rest =>
    List.cons <$> (rule d).under (.position position) <*> itemsFrom rule (position + 1) rest

/-- A list whose items satisfy a rule. -/
def list (rule : Datum → Checked α) : Datum → Checked (List α)
  | .list items => itemsFrom rule 0 items
  | _ => .violated .notList

/-- Nothing, or what satisfies a rule. -/
def optional (rule : Datum → Checked α) : Datum → Checked (Option α)
  | .null => .valid none
  | d => (rule d).map some

/-- What sets instances apart: a name or an integer, and failing that, what gives an integer. What
is neither violates both alternatives. -/
def instanceKey : Datum → Checked InstanceKey
  | .str s => .valid (.name s)
  | d =>
    match (integer d).under (.field "int") with
    | .valid n => .valid (.number n)
    | .invalid fs => .invalid (fs ++ [⟨[.field "str"], .notString⟩])
    | .broken b => .broken b

/-! ## Fields -/

/-- A field that has no default. -/
def required (rule : Datum → Checked α) (entries : List (Datum × Datum)) (name : String) :
    Checked α :=
  Checked.under (.field name) <| match Datum.member? entries name with
    | some d => rule d
    | none => .violated .missing

/-- A field with a value for its absence. -/
def defaulted (rule : Datum → Checked α) (value : α) (entries : List (Datum × Datum))
    (name : String) : Checked α :=
  match Datum.member? entries name with
  | some d => (rule d).under (.field name)
  | none => .valid value

/-- A model given by a mapping; anything else is a violation. -/
def model (fields : List (Datum × Datum) → Checked α) : Datum → Checked α
  | .map entries => fields entries
  | _ => .violated .notMapping

end Rule

end BlockDoc
