/-!
# Strict decoding of UTF-8

Octets are decoded one character at a time. The first octet of a character fixes how many octets
follow it and which values the second one may have, so that a fault is found at the earliest octet
at which no text can continue.

## Main definitions

* `Utf8.Fault` — why octets are not the encoding of a text, and which octets are to blame
* `Utf8.decode` — the text that octets encode, or the first fault
* `Utf8.encode` — the octets of a text
* `Utf8.Fault.fromTail` — a fault of a text that was read piecewise
-/

namespace BlockDoc

namespace Utf8

/-- The three ways in which octets fail to be UTF-8. -/
inductive FaultKind
  /-- No character starts with this octet. -/
  | invalidStart
  /-- A character has begun, and this octet cannot continue it. -/
  | invalidContinuation
  /-- The octets end within a character. -/
  | unexpectedEnd
  deriving DecidableEq, Repr

/-- The first fault in a list of octets: `octets` are those from the start of the broken character
up to the fault, and `position` is the number of octets before them. -/
structure Fault where
  position : Nat
  octets : List UInt8
  kind : FaultKind
  deriving DecidableEq, Repr

/-- The wording of a kind of fault. -/
def FaultKind.reason : FaultKind → String
  | .invalidStart => "invalid start byte"
  | .invalidContinuation => "invalid continuation byte"
  | .unexpectedEnd => "unexpected end of data"

/-- An octet as two lower-case hexadecimal digits. -/
def octetText (b : UInt8) : String :=
  let digits := Nat.toDigits 16 b.toNat
  String.ofList (List.replicate (2 - digits.length) '0' ++ digits)

/-- The message of a fault names the octet when it is a single one and gives the positions of the
first and the last otherwise. -/
def Fault.message (f : Fault) : String :=
  let place := match f.octets with
    | [b] => s!"byte 0x{octetText b} in position {f.position}"
    | bs => s!"bytes in position {f.position}-{f.position + bs.length - 1}"
  s!"'utf-8' codec can't decode {place}: {f.kind.reason}"

/-- What the first octet of a character says about the rest: its own share of the code point, how
many octets follow, and the bounds of the second octet. -/
structure Lead where
  bits : Nat
  following : Nat
  low : Nat
  high : Nat

/-- The table of first octets. The bounds of the second octet exclude forms longer than necessary,
surrogates, and code points above U+10FFFF. -/
def lead? (b : Nat) : Option Lead :=
  if b ≤ 0x7F then some ⟨b, 0, 0x80, 0xBF⟩
  else if b < 0xC2 then none
  else if b ≤ 0xDF then some ⟨b - 0xC0, 1, 0x80, 0xBF⟩
  else if b = 0xE0 then some ⟨0, 2, 0xA0, 0xBF⟩
  else if b = 0xED then some ⟨0xD, 2, 0x80, 0x9F⟩
  else if b ≤ 0xEF then some ⟨b - 0xE0, 2, 0x80, 0xBF⟩
  else if b = 0xF0 then some ⟨0, 3, 0x90, 0xBF⟩
  else if b ≤ 0xF3 then some ⟨b - 0xF0, 3, 0x80, 0xBF⟩
  else if b = 0xF4 then some ⟨4, 3, 0x80, 0x8F⟩
  else none

/-- A character some of whose octets have been read. -/
structure OpenCharacter where
  /-- The code point as far as it is known. -/
  code : Nat
  /-- The octets read so far, the latest first. -/
  seen : List UInt8
  /-- How many octets are missing beyond the next one. -/
  later : Nat
  /-- The bounds of the next octet. -/
  low : Nat
  high : Nat

/-- Decoding of the octets after position `position`, the characters so far in reverse. An open
character is carried along until its last octet arrives. -/
def decodeFrom (position : Nat) (done : List Char) :
    Option OpenCharacter → List UInt8 → Except Fault (List Char)
  | none, [] => .ok done.reverse
  | some p, [] => .error ⟨position - p.seen.length, p.seen.reverse, .unexpectedEnd⟩
  | none, b :: rest =>
    match lead? b.toNat with
    | none => .error ⟨position, [b], .invalidStart⟩
    | some ⟨bits, 0, _, _⟩ => decodeFrom (position + 1) (Char.ofNat bits :: done) none rest
    | some ⟨bits, n + 1, low, high⟩ =>
      decodeFrom (position + 1) done (some ⟨bits, [b], n, low, high⟩) rest
  | some p, b :: rest =>
    if p.low ≤ b.toNat ∧ b.toNat ≤ p.high then
      let code := p.code * 0x40 + (b.toNat - 0x80)
      match p.later with
      | 0 => decodeFrom (position + 1) (Char.ofNat code :: done) none rest
      | n + 1 => decodeFrom (position + 1) done (some ⟨code, b :: p.seen, n, 0x80, 0xBF⟩) rest
    else .error ⟨position - p.seen.length, p.seen.reverse, .invalidContinuation⟩

/-- The characters that the octets encode, or the first fault. -/
def decode (octets : List UInt8) : Except Fault (List Char) :=
  decodeFrom 0 [] none octets

/-- A fault as a reader sees it that takes the octets piece by piece and has handed on all whole
characters: when the data end within a character, the positions count from the start of that
character. -/
def Fault.fromTail (f : Fault) : Fault :=
  match f.kind with
  | .unexpectedEnd => { f with position := 0 }
  | _ => f

/-- The octets of a text. -/
def encode (s : String) : List UInt8 :=
  s.toUTF8.toList

end Utf8

end BlockDoc
