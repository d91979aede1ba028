/-!
# White space

Two sets of white space characters and the trimming of texts.

## Main definitions

* `Text.isWhiteSpace` — the Unicode property White_Space
* `Text.isBlank` — White_Space together with the four information separators
* `Text.trimWhere`, `Text.trimChars` — removal of blanks from both ends
-/

namespace BlockDoc

namespace Text

/-- The Unicode property White_Space: the ASCII layout characters, the no-break space, and the
spaces and separators of general punctuation. -/
def isWhiteSpace (c : Char) : Bool :=
  let n := c.toNat
  (0x09 ≤ n && n ≤ 0x0D) || n == 0x20 || n == 0x85 || n == 0xA0 || n == 0x1680 ||
    (0x2000 ≤ n && n ≤ 0x200A) || n == 0x2028 || n == 0x2029 || n == 0x202F || n == 0x205F ||
    n == 0x3000

/-- A character that is trimmed from the ends of a text: white space, or one of the four
information separators U+001C to U+001F. -/
def isBlank (c : Char) : Bool :=
  isWhiteSpace c || (0x1C ≤ c.toNat && c.toNat ≤ 0x1F)

/-- `cs` without the characters at its two ends that satisfy `p`. -/
def trimWhere (p : Char → Bool) (cs : List Char) : List Char :=
  ((cs.dropWhile p).reverse.dropWhile p).reverse

/-- `cs` without the blanks at its two ends. -/
def trimChars (cs : List Char) : List Char :=
  trimWhere isBlank cs

@[simp]
theorem trimChars_nil : trimChars [] = [] := rfl

end Text

end BlockDoc
