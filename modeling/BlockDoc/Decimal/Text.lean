import BlockDoc.Decimal.Basic
import BlockDoc.Text.Blank
import BlockDoc.Text.Digit
import BlockDoc.Text.Lines

/-!
# Decimal numbers as text

Reading accepts blanks around the number, underscores anywhere, and the digits of all scripts.
Writing gives back the coefficient and the exponent unchanged.

## Main definitions

* `Decimal.plainText` — a text reduced to ASCII digits, without underscores and outer blanks
* `Decimal.readMagnitude?` — digits with an optional point and an optional exponent
* `Decimal.ofText?` — the number that a text denotes
* `Decimal.text` — the text of a number
-/

namespace BlockDoc

namespace Decimal

/-! ## Reading -/

/-- A digit of any script as the ASCII digit of the same value, and any other character as it is. -/
def asciiDigit (c : Char) : Char :=
  match Text.digitValue? c with
  | some d => Char.ofNat ('0'.toNat + d)
  | none => c

/-- The text without outer blanks and underscores, and with ASCII digits. -/
def plainText (cs : List Char) : List Char :=
  ((Text.trimChars cs).filter (· ≠ '_')).map asciiDigit

/-- The values of the leading ASCII digits, and what follows them. -/
def takeDigits : List Char → List Nat × List Char
  | [] => ([], [])
  | c :: cs =>
    match Text.asciiDigit? c with
    | some d => (d :: (takeDigits cs).1, (takeDigits cs).2)
    | none => ([], c :: cs)

/-- A leading sign, and what follows it: `true` for a minus. -/
def takeSign : List Char → Bool × List Char
  | '+' :: cs => (false, cs)
  | '-' :: cs => (true, cs)
  | cs => (false, cs)

/-- The fraction digits after a leading point, and what follows them. -/
def takeFraction : List Char → List Nat × List Char
  | '.' :: cs => takeDigits cs
  | cs => ([], cs)

/-- The exponent that makes up the whole of a text: nothing, or the mark `e` in either case, an
optional sign and at least one digit. -/
def readExponent? : List Char → Option Int
  | [] => some 0
  | c :: cs =>
    if c = 'e' ∨ c = 'E' then
      let (negative, cs) := takeSign cs
      match takeDigits cs with
      | ([], _) => none
      | (ds, []) => some (signed negative (Text.ofDigits 10 ds))
      | _ => none
    else none

/-- The number with the given digits before and after the point. -/
def ofDigits (negative : Bool) (whole fraction : List Nat) (exponent : Int) : Decimal :=
  .finite negative (Text.ofDigits 10 (whole ++ fraction)) (exponent - fraction.length)

/-- An unsigned number: digits with an optional point, at least one digit in all, and an optional
exponent. -/
def readMagnitude? (negative : Bool) (cs : List Char) : Option Decimal :=
  let (whole, cs) := takeDigits cs
  let (fraction, cs) := takeFraction cs
  if whole.isEmpty && fraction.isEmpty then none
  else (readExponent? cs).map (ofDigits negative whole fraction)

/-- The payload of a `nan`: digits only, and zero if there are none. -/
def readPayload? (cs : List Char) : Option Nat :=
  match takeDigits cs with
  | (ds, []) => some (Text.ofDigits 10 ds)
  | _ => none

/-- A number without its sign, whose letters may be of either case: a name, or a magnitude. -/
def readUnsigned? (negative : Bool) (cs : List Char) : Option Decimal :=
  match cs.map Char.toLower with
  | ['i', 'n', 'f'] => some (.infinite negative)
  | ['i', 'n', 'f', 'i', 'n', 'i', 't', 'y'] => some (.infinite negative)
  | 'n' :: 'a' :: 'n' :: rest => (readPayload? rest).map (.nan negative false)
  | 's' :: 'n' :: 'a' :: 'n' :: rest => (readPayload? rest).map (.nan negative true)
  | _ => readMagnitude? negative cs

/-- The greatest power of ten that a first digit may stand for. -/
def greatestPower : Int := 999999999999999999

/-- The least power of ten that a last digit may stand for. -/
def leastExponent : Int := -1999999999999999997

/-- Whether the digits of a number stand for powers of ten that are in range. -/
def isInRange : Decimal → Bool
  | .finite _ c e =>
    leastExponent ≤ e && e + ((Text.natChars c).length : Int) - 1 ≤ greatestPower
  | _ => true

/-- The number that a list of characters denotes. -/
def ofChars? (cs : List Char) : Option Decimal :=
  let (negative, cs) := takeSign (plainText cs)
  (readUnsigned? negative cs).filter isInRange

/-- The number that a text denotes, or nothing if it is not the text of a number. -/
def ofText? (s : String) : Option Decimal :=
  ofChars? s.toList

/-! ## Writing -/

/-- The digits with a point before the last `-exponent` of them, filled up with zeros on the left
so that a digit stands before the point. -/
def positional (digits : List Char) (exponent : Int) : List Char :=
  let places := (-exponent).toNat
  if places = 0 then digits
  else
    let digits := List.replicate (places + 1 - digits.length) '0' ++ digits
    digits.take (digits.length - places) ++ '.' :: digits.drop (digits.length - places)

/-- The digits with a point after the first of them and the power of ten that this leaves. -/
def scientific (digits : List Char) (power : Int) : List Char :=
  let fraction := match digits.drop 1 with
    | [] => []
    | ds => '.' :: ds
  let sign := if power < 0 then '-' else '+'
  digits.take 1 ++ fraction ++ 'E' :: sign :: (Text.natChars power.natAbs)

/-- The digits of a finite number. They stand plainly if the exponent is not positive and the first
digit is at most six places after the point, and in scientific notation otherwise. -/
def magnitudeText (coefficient : Nat) (exponent : Int) : List Char :=
  let digits := Text.natChars coefficient
  let power := exponent + digits.length - 1
  if exponent ≤ 0 ∧ -6 ≤ power then positional digits exponent else scientific digits power

/-- The text of a number. -/
def text (d : Decimal) : String :=
  let sign (negative : Bool) : List Char := if negative then ['-'] else []
  String.ofList <| match d with
    | .finite negative c e => sign negative ++ magnitudeText c e
    | .infinite negative => sign negative ++ "Infinity".toList
    | .nan negative signaling payload =>
      sign negative ++ (if signaling then ['s'] else []) ++ "NaN".toList ++
        (if payload = 0 then [] else Text.natChars payload)

end Decimal

end BlockDoc
