import BlockDoc.Datum.Basic
import BlockDoc.Decimal.Text
import BlockDoc.Text.Digit
import BlockDoc.Text.Lines

/-!
# Plain scalars of YAML

A scalar without quotes is null, a truth value or a number if it is spelt like one, and a string
otherwise. A scalar that is spelt like a date is not read, since dates are no data.

## Main definitions

* `Yaml.Fault` — why a document is not read
* `Yaml.readInt?` — integers in base two, eight, ten, sixteen and sixty
* `Yaml.readFloat?` — floating-point numbers
* `Yaml.isTimestamp` — the form of dates
* `Yaml.plainDatum` — the value of a plain scalar
-/

namespace BlockDoc

namespace Yaml

/-- Why a document is not read: it is malformed, it holds a decimal integer of too many digits, an
integer whose digits are underscores only, or a date. -/
inductive Fault
  | malformed
  | oversized (digits : Nat)
  | emptyNumeral (base : Nat)
  | date
  deriving DecidableEq, Repr

/-- The longest decimal integer that is read, in digits. -/
def digitLimit : Nat := 4300

/-! ## Integers -/

/-- Whether `cs` is a digit of the base followed by such digits and underscores. -/
def startsNumeral (base : Nat) : List Char → Bool
  | [] => false
  | c :: cs => isDigitOf c && cs.all fun c => c == '_' || isDigitOf c
where
  isDigitOf (c : Char) : Bool := ((Text.hexDigit? c).any (· < base))

/-- The digit values among digits and underscores. -/
def digitValues (cs : List Char) : List Nat :=
  cs.filterMap Text.hexDigit?

/-- The number that a nonempty list of digits and underscores denotes after the mark of its base. -/
def markedNumeral (base : Nat) (cs : List Char) : Except Fault Nat :=
  match digitValues cs with
  | [] => .error (.emptyNumeral base)
  | ds => .ok (Text.ofDigits base ds)

/-- The number that decimal digits and underscores denote. -/
def decimalNumeral (cs : List Char) : Except Fault Nat :=
  let ds := digitValues cs
  if digitLimit < ds.length then .error (.oversized ds.length) else .ok (Text.ofDigits 10 ds)

/-- A place of a number in base sixty after the first: one digit, or two of which the first is below
six. -/
def sixtieth? : List Char → Option Nat
  | [d] => Text.asciiDigit? d
  | [t, d] => do
    let t ← Text.asciiDigit? t
    let d ← Text.asciiDigit? d
    if t < 6 then some (t * 10 + d) else none
  | _ => none

/-- An integer without its sign. -/
def readMagnitude? (cs : List Char) : Option (Except Fault Nat) :=
  match cs with
  | '0' :: 'b' :: ds =>
    if !ds.isEmpty && ds.all (fun c => c == '_' || c == '0' || c == '1') then
      some (markedNumeral 2 ds)
    else none
  | '0' :: 'x' :: ds =>
    if !ds.isEmpty && ds.all (fun c => c == '_' || (Text.hexDigit? c).isSome) then
      some (markedNumeral 16 ds)
    else none
  | '0' :: ds =>
    if startsNumeral 8 cs then some (.ok (Text.ofDigits 8 (digitValues ds))) else none
  | cs =>
    match Text.splitOnChar ':' cs with
    | [] => none
    | first :: places =>
      if startsNumeral 10 first then
        (places.mapM sixtieth?).map fun places =>
          (decimalNumeral first).map fun n => Text.ofDigits 60 (n :: places)
      else none

/-- An integer with an optional sign. -/
def readInt? (cs : List Char) : Option (Except Fault Int) :=
  let (negative, cs) := Decimal.takeSign cs
  (readMagnitude? cs).map fun n => n.map (signed negative)

/-! ## Floating-point numbers -/

/-- The leading digits and underscores, and what follows them. -/
def takeSpaced (cs : List Char) : List Char × List Char :=
  cs.span fun c => c == '_' || Text.isAsciiDigit c

/-- The exponent that makes up a whole text: nothing, or the mark `e` in either case, a sign and at
least one digit. -/
def readExponent? : List Char → Option Int
  | [] => some 0
  | mark :: sign :: ds =>
    if (mark = 'e' ∨ mark = 'E') ∧ (sign = '+' ∨ sign = '-') then
      match Decimal.takeDigits ds with
      | (d :: ds, []) => some (signed (sign = '-') (Text.ofDigits 10 (d :: ds)))
      | _ => none
    else none
  | _ => none

/-- A floating-point number: digits with a point among them, where only a number that begins with a
digit has a sign, or one of the names of the infinities and of `nan`. -/
def readFloat? (cs : List Char) : Option Binary64 :=
  let (negative, rest) := Decimal.takeSign cs
  if [".inf", ".Inf", ".INF"].contains (String.ofList rest) then some (.infinite negative)
  else if [".nan", ".NaN", ".NAN"].contains (String.ofList cs) then some .nan
  else
    let (whole, rest) := takeSpaced rest
    match rest with
    | '.' :: rest =>
      let (fraction, rest) := takeSpaced rest
      if startsNumeral 10 whole || (cs.head? == some '.' && startsNumeral 10 fraction) then
        (readExponent? rest).map fun e =>
          (Decimal.ofDigits negative (digitValues whole) (digitValues fraction) e).toBinary64
      else none
    | _ => none

/-! ## Dates -/

/-- What follows on leading digits, of which there are `least` or more, and `most` are taken. -/
def dropDigits? (least most : Nat) (cs : List Char) : Option (List Char) :=
  let width := ((cs.take most).takeWhile Text.isAsciiDigit).length
  if width < least then none else some (cs.drop width)

/-- What follows on a character at the start. -/
def dropChar? (c : Char) : List Char → Option (List Char)
  | d :: cs => if c = d then some cs else none
  | [] => none

/-- What follows on year, month and day, where month and day have two digits, or `least` at
least. -/
def dropDay? (least : Nat) (cs : List Char) : Option (List Char) := do
  let cs ← dropDigits? 4 4 cs
  let cs ← dropChar? '-' cs
  let cs ← dropDigits? least 2 cs
  let cs ← dropChar? '-' cs
  dropDigits? least 2 cs

/-- What follows on hours, minutes and seconds. -/
def dropClock? (cs : List Char) : Option (List Char) := do
  let cs ← dropDigits? 1 2 cs
  let cs ← dropChar? ':' cs
  let cs ← dropDigits? 2 2 cs
  let cs ← dropChar? ':' cs
  dropDigits? 2 2 cs

/-- Whether a character is a blank between the parts of a date. -/
def isGap (c : Char) : Bool :=
  c == ' ' || c == '\t'

/-- Whether a text is the zone at the end of a date, if anything is left: the mark of universal
time, or a distance from it. -/
def isZone (cs : List Char) : Bool :=
  cs.isEmpty ||
    match cs.dropWhile isGap with
    | ['Z'] => true
    | sign :: rest =>
      (sign == '+' || sign == '-') &&
        match dropDigits? 1 2 rest with
        | some [] => true
        | some (':' :: rest) => dropDigits? 2 2 rest == some []
        | _ => false
    | [] => false

/-- Whether a text is a time and its zone. -/
def isClock (cs : List Char) : Bool :=
  match dropClock? cs with
  | some ('.' :: rest) => isZone (rest.dropWhile Text.isAsciiDigit)
  | some rest => isZone rest
  | none => false

/-- Whether a scalar has the form of a date, alone or with a time. -/
def isTimestamp (cs : List Char) : Bool :=
  dropDay? 2 cs == some [] ||
    match dropDay? 1 cs with
    | some (c :: rest) =>
      if c = 'T' ∨ c = 't' then isClock rest
      else isGap c && isClock (rest.dropWhile isGap)
    | _ => false

/-! ## All plain scalars -/

/-- The spellings of null. -/
def nullWords : List String := ["", "~", "null", "Null", "NULL"]

/-- The spellings of true. -/
def trueWords : List String :=
  ["yes", "Yes", "YES", "true", "True", "TRUE", "on", "On", "ON"]

/-- The spellings of false. -/
def falseWords : List String :=
  ["no", "No", "NO", "false", "False", "FALSE", "off", "Off", "OFF"]

/-- Scalars with a meaning for the document itself, which are no values. -/
def reservedWords : List String := ["=", "<<"]

/-- The value of a plain scalar. -/
def plainDatum (s : String) : Except Fault Datum :=
  if nullWords.contains s then .ok .null
  else if trueWords.contains s then .ok (.bool true)
  else if falseWords.contains s then .ok (.bool false)
  else if reservedWords.contains s then .error .malformed
  else
    match readInt? s.toList, readFloat? s.toList with
    | some n, _ => n.map .int
    | none, some x => .ok (.float x)
    | none, none => if isTimestamp s.toList then .error .date else .ok (.str s)

end Yaml

end BlockDoc
