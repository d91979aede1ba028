import BlockDoc.Datum.Basic
import BlockDoc.Decimal.Text
import BlockDoc.Text.Digit

/-!
# Tokens of JSON texts

A JSON text is cut into tokens with their places. A character sequence that begins no token, and a
string with a fault in it, become tokens as well: whether and how they are reported depends on what
the reader expects at their place.

## Main definitions

* `Json.Lexeme`, `Json.Token` — tokens without and with their place
* `Json.scanString` — the string after an opening quote
* `Json.scanNumber?` — the longest number at the start of a text
* `Json.tokens` — the tokens of a text
-/

namespace BlockDoc

namespace Json

/-- The ways in which a text fails to be JSON. -/
inductive Problem
  | valueExpected
  | nameExpected
  | colonExpected
  | commaExpected
  | extraData
  | unterminatedString
  | controlCharacter
  | unknownEscape
  | malformedCodePoint
  | byteOrderMark
  deriving DecidableEq, Repr

/-- A token. `broken problem offset` is a string with a fault at a place, `oversized n` an integer
of `n` digits where so many are not read, and `unknown` begins no token. -/
inductive Lexeme
  | bracket (c : Char)
  | scalar (d : Datum)
  | text (s : String)
  | broken (problem : Problem) (offset : Nat)
  | oversized (digits : Nat)
  | unknown

/-- A token and the number of characters before it. -/
structure Token where
  offset : Nat
  lexeme : Lexeme

/-- The longest integer that is read, in digits. -/
def digitLimit : Nat := 4300

/-! ## Strings -/

/-- The code point of one unit, or of a surrogate pair at the start of a list of code units, for all
of them. A surrogate without its partner has no character, and the replacement character stands for
it: strings that differ only in such surrogates are not told apart. -/
def joinUnits : List Nat → List Char
  | [] => []
  | [u] => [if 0xD800 ≤ u ∧ u < 0xE000 then '�' else Char.ofNat u]
  | u :: v :: rest =>
    if 0xD800 ≤ u ∧ u < 0xDC00 ∧ 0xDC00 ≤ v ∧ v < 0xE000 then
      Char.ofNat (0x10000 + (u - 0xD800) * 0x400 + (v - 0xDC00)) :: joinUnits rest
    else (if 0xD800 ≤ u ∧ u < 0xE000 then '�' else Char.ofNat u) :: joinUnits (v :: rest)

/-- The character that a letter after a backslash stands for. -/
def simpleEscape? (c : Char) : Option Char :=
  match c with
  | '"' => some '"'
  | '\\' => some '\\'
  | '/' => some '/'
  | 'b' => some '\x08'
  | 'f' => some '\x0c'
  | 'n' => some '\n'
  | 'r' => some '\r'
  | 't' => some '\t'
  | _ => none

/-- The number that four hexadecimal digits denote. -/
def hexUnit? (a b c d : Char) : Option Nat :=
  match [a, b, c, d].mapM Text.hexDigit? with
  | some ds => some (Text.ofDigits 16 ds)
  | none => none

/-- The rest of a string whose opening quote has the offset `start`: its token and the number of
characters up to and with the closing quote. `units` holds the code units so far in reverse, and
`offset` is the place of the next character. A code point escape needs a character after its four
digits. -/
def scanString (start offset : Nat) (units : List Nat) : List Char → Lexeme × Nat
  | [] => (.broken .unterminatedString start, offset - start)
  | '"' :: _ => (.text (String.ofList (joinUnits units.reverse)), offset + 1 - start)
  | '\\' :: 'u' :: a :: b :: c :: d :: e :: rest =>
    match hexUnit? a b c d with
    | some u => scanString start (offset + 6) (u :: units) (e :: rest)
    | none => (.broken .malformedCodePoint (offset + 1), offset - start)
  | '\\' :: 'u' :: _ => (.broken .malformedCodePoint (offset + 1), offset - start)
  | '\\' :: c :: rest =>
    match simpleEscape? c with
    | some c => scanString start (offset + 2) (c.toNat :: units) rest
    | none => (.broken .unknownEscape offset, offset - start)
  | ['\\'] => (.broken .unterminatedString start, offset - start)
  | c :: rest =>
    if c.toNat < 0x20 then (.broken .controlCharacter offset, offset - start)
    else scanString start (offset + 1) (c.toNat :: units) rest

/-! ## Numbers -/

/-- The leading integer digits: a single zero, or digits of which the first is not zero. -/
def takeWhole (cs : List Char) : List Nat :=
  match Decimal.takeDigits cs with
  | (0 :: _, _) => [0]
  | (ds, _) => ds

/-- The digits of a leading fraction: a point followed by at least one digit. -/
def takeFraction : List Char → List Nat
  | '.' :: cs => (Decimal.takeDigits cs).1
  | _ => []

/-- The value and width of a leading exponent: its mark, an optional sign and at least one digit. -/
def takeExponent? : List Char → Option (Int × Nat)
  | c :: cs =>
    if c = 'e' ∨ c = 'E' then
      let (negative, rest) := Decimal.takeSign cs
      match (Decimal.takeDigits rest).1 with
      | [] => none
      | ds =>
        some (signed negative (Text.ofDigits 10 ds), 1 + (cs.length - rest.length) + ds.length)
    else none
  | [] => none

/-- The number at the start of a text and its width. A number without fraction and exponent is an
integer. -/
def scanNumber? (cs : List Char) : Option (Lexeme × Nat) :=
  let (negative, rest) := match cs with
    | '-' :: rest => (true, rest)
    | _ => (false, cs)
  let whole := takeWhole rest
  let fraction := takeFraction (rest.drop whole.length)
  let places := if fraction.isEmpty then 0 else fraction.length + 1
  let width := (cs.length - rest.length) + whole.length + places
  if whole.isEmpty then none
  else
    match fraction, takeExponent? (cs.drop width) with
    | [], none =>
      if digitLimit < whole.length then some (.oversized whole.length, width)
      else some (.scalar (.int (signed negative (Text.ofDigits 10 whole))), width)
    | _, none =>
      some (.scalar (.float (Decimal.ofDigits negative whole fraction 0).toBinary64), width)
    | _, some (e, w) =>
      some (.scalar (.float (Decimal.ofDigits negative whole fraction e).toBinary64), width + w)

/-! ## All tokens -/

/-- The words with a meaning. -/
def words : List (String × Datum) :=
  [("null", .null), ("true", .bool true), ("false", .bool false), ("NaN", .float .nan),
    ("Infinity", .float (.infinite false)), ("-Infinity", .float (.infinite true))]

/-- The word at the start of a text and its width. -/
def scanWord? (cs : List Char) : Option (Lexeme × Nat) :=
  (words.find? fun w => w.1.toList.isPrefixOf cs).map fun w => (.scalar w.2, w.1.length)

/-- Whether a character separates tokens. -/
def isSpace (c : Char) : Bool :=
  c == ' ' || c == '\t' || c == '\n' || c == '\r'

/-- The token at the start of a text, and the number of its characters. -/
def scan (offset : Nat) : List Char → Lexeme × Nat
  | [] => (.unknown, 1)
  | c :: cs =>
    if "[]\x7b\x7d,:".toList.contains c then (.bracket c, 1)
    else if c = '"' then scanString offset (offset + 1) [] cs
    else
      match scanWord? (c :: cs) with
      | some found => found
      | none => (scanNumber? (c :: cs)).getD (.unknown, 1)

/-- The tokens of the text after `offset` characters, of which the next `skip` belong to a token
already found. -/
def tokensFrom (offset skip : Nat) : List Char → List Token
  | [] => []
  | c :: cs =>
    match skip with
    | k + 1 => tokensFrom (offset + 1) k cs
    | 0 =>
      if isSpace c then tokensFrom (offset + 1) 0 cs
      else
        let (lexeme, width) := scan offset (c :: cs)
        ⟨offset, lexeme⟩ :: tokensFrom (offset + 1) (width - 1) cs

/-- The tokens of a text. -/
def tokens (cs : List Char) : List Token :=
  tokensFrom 0 0 cs

end Json

end BlockDoc
