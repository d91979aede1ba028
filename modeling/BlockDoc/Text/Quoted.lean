import BlockDoc.Text.Printable

/-!
# Quoted texts

The one-line quoted form in which messages show a text, so that its ends and its invisible
characters can be seen.

## Main definitions

* `Text.hexPadded` — a number in base sixteen with a least width
* `Text.quoteMark` — the mark that encloses a text: the single quote where possible
* `Text.escapeChar` — a character as it stands between the marks
* `Text.quoted` — a text between its marks
-/

namespace BlockDoc

namespace Text

/-- `n` in base sixteen with lower-case letters, filled up with zeros to `width` digits. -/
def hexPadded (width n : Nat) : List Char :=
  let digits := Nat.toDigits 16 n
  List.replicate (width - digits.length) '0' ++ digits

/-- The code point of `c` after a backslash: two digits after `x`, four after `u` or eight after
`U`, whichever is the first that holds it. -/
def escapeCode (c : Char) : List Char :=
  if c.toNat < 0x100 then '\\' :: 'x' :: hexPadded 2 c.toNat
  else if c.toNat < 0x10000 then '\\' :: 'u' :: hexPadded 4 c.toNat
  else '\\' :: 'U' :: hexPadded 8 c.toNat

/-- The mark around a text: a single quote, unless the text holds single quotes and no double
quote. -/
def quoteMark (cs : List Char) : Char :=
  if cs.contains '\'' && !cs.contains '"' then '"' else '\''

/-- A character between quotation marks. The mark and the backslash stand after a backslash, line
feed, carriage return and tab have escapes of their own, and what is not printable is given by its
code point. -/
def escapeChar (mark c : Char) : List Char :=
  if c = mark ∨ c = '\\' then ['\\', c]
  else if c = '\n' then ['\\', 'n']
  else if c = '\r' then ['\\', 'r']
  else if c = '\t' then ['\\', 't']
  else if isPrintable c then [c]
  else escapeCode c

/-- The quoted form of a list of characters. -/
def quotedChars (cs : List Char) : List Char :=
  let mark := quoteMark cs
  mark :: (cs.flatMap (escapeChar mark) ++ [mark])

/-- The quoted form of a text. -/
def quoted (s : String) : String :=
  String.ofList (quotedChars s.toList)

end Text

end BlockDoc
