/-!
# Lines and pieces of a text

## Main definitions

* `Text.unifyLineEnds` — every line end as a single line feed
* `Text.splitOnChar`, `Text.joinWith` — cutting at a character, and joining
* `Text.lowerAscii`, `Text.upperName` — letter case
* `Text.Position` — line and column of a character
-/

namespace BlockDoc

namespace Text

/-- The text with each carriage return, and each carriage return with the line feed after it, as
one line feed. -/
def unifyLineEnds : List Char → List Char
  | [] => []
  | '\r' :: '\n' :: cs => '\n' :: unifyLineEnds cs
  | '\r' :: cs => '\n' :: unifyLineEnds cs
  | c :: cs => c :: unifyLineEnds cs

/-- The pieces of `cs` between the occurrences of `sep`; one more than there are occurrences. -/
def splitOnChar (sep : Char) : List Char → List (List Char)
  | [] => [[]]
  | c :: cs =>
    let pieces := splitOnChar sep cs
    if c = sep then [] :: pieces
    else match pieces with
      | [] => [[c]]
      | p :: ps => (c :: p) :: ps

/-- The pieces of a text between the occurrences of a character. -/
def split (sep : Char) (s : String) : List String :=
  (splitOnChar sep s.toList).map String.ofList

/-- The texts in order, with `sep` between neighbours. -/
def joinWith (sep : String) : List String → String
  | [] => ""
  | [s] => s
  | s :: rest => s ++ sep ++ joinWith sep rest

/-- The text with the ASCII letters in lower case. -/
def lowerAscii (s : String) : String :=
  String.ofList (s.toList.map Char.toLower)

/-- The capital of a character as far as names in capital ASCII letters are concerned. Beside the
small ASCII letters, only the dotless i and the long s have an ASCII capital. -/
def capitalChar (c : Char) : Char :=
  if c = 'ı' then 'I' else if c = 'ſ' then 'S' else c.toUpper

/-- The text in capitals, for the comparison with a name in capital ASCII letters. -/
def upperName (s : String) : String :=
  String.ofList (s.toList.map capitalChar)

/-- The place of a character: its number counted from zero, its line and column from one. -/
structure Position where
  offset : Nat
  line : Nat
  column : Nat
  deriving DecidableEq, Repr

/-- The place of the character number `offset` of a text. -/
def Position.ofOffset (text : List Char) (offset : Nat) : Position :=
  let before := text.take offset
  ⟨offset, before.count '\n' + 1, (before.reverse.takeWhile (· ≠ '\n')).length + 1⟩

theorem splitOnChar_ne_nil (sep : Char) (cs : List Char) : splitOnChar sep cs ≠ [] := by
  cases cs with
  | nil => simp [splitOnChar]
  | cons c cs =>
    simp only [splitOnChar]
    split
    · simp
    · split <;> simp

end Text

end BlockDoc
