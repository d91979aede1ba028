import BlockDoc.Yaml.Outline

/-!
# Reading YAML

The documents that are read consist of indented collections, bracketed collections on one line, and
scalars on one line. A document may stand between the markers `---` and `...`.

## Main definitions

* `Yaml.isAllowed` — the characters a document may hold
* `Yaml.lines` — the lines of a document
* `Yaml.Progress` — the state of reading, line by line
* `Yaml.read` — the value of a document, or why it is not read
-/

namespace BlockDoc

namespace Yaml

/-- Whether a character may occur in a document. Controls other than tab and line ends, and the last
two code points of the basic plane, may not. -/
def isAllowed (c : Char) : Bool :=
  let n := c.toNat
  n == 0x09 || n == 0x0A || n == 0x0D || (0x20 ≤ n && n ≤ 0x7E) || n == 0x85 ||
    (0xA0 ≤ n && n ≤ 0xFFFD) || 0x10000 ≤ n

/-- Whether a character ends a line. -/
def isLineEnd (c : Char) : Bool :=
  c == '\n' || c == '\r' || c == '\u0085' || c == '\u2028' || c == '\u2029'

/-- The lines of a text, without their ends. -/
def lines (cs : List Char) : List (List Char) :=
  Text.splitOnChar '\n' (cs.map fun c => if isLineEnd c then '\n' else c)

/-- How far a document has been read. -/
inductive Progress
  /-- Before the document and its marker. -/
  | before
  /-- Within the document. -/
  | within (o : Outline)
  /-- After the end marker. -/
  | after (o : Outline)

/-- Whether a line starts with a marker of three characters that stands alone or before a blank. -/
def isMarker (marker : Char) (line : List Char) : Bool :=
  line.take 3 == List.replicate 3 marker && atBlank (line.drop 3)

/-- The document after the marks of a line. -/
def Progress.marks? (line : List Char) (p : Progress) : Option Progress := do
  let ms ← lineMarks? line
  match ms, p with
  | [], p => some p
  | ms, .before => (Outline.empty.steps? ms).map .within
  | ms, .within o => (o.steps? ms).map .within
  | _, .after _ => none

/-- The document after a start marker, on whose line a single node may stand. -/
def Progress.start? (line : List Char) : Option Progress :=
  let rest := line.drop 3
  if isTrailer rest then some (.within .empty)
  else
    let value := rest.dropWhile (· == ' ')
    if value.head? == some '-' && atBlank (value.drop 1) then none
    else do
      let ms ← valueMark? (line.length - value.length) false value
      let o ← Outline.empty.steps? ms
      some (.within o)

/-- The state after a line. There is one document only. -/
def Progress.line? (p : Progress) (line : List Char) : Option Progress :=
  if isMarker '-' line then
    match p with
    | .before => start? line
    | _ => none
  else if isMarker '.' line then
    if isTrailer (line.drop 3) then
      match p with
      | .before => none
      | .within o => some (.after o)
      | .after o => some (.after o)
    else none
  else p.marks? line

/-- The node of the document. -/
def Progress.result? : Progress → Option Node
  | .before => some .absent
  | .within o => o.result?
  | .after o => o.result?

/-- A text without the byte order mark at its start. -/
def dropMark : List Char → List Char
  | '\ufeff' :: cs => cs
  | cs => cs

/-- The node that a text describes. -/
def readNode? (cs : List Char) : Option Node :=
  if cs.all isAllowed then do
    let p ← (lines (dropMark cs)).foldlM Progress.line? .before
    p.result?
  else none

/-- The value of a YAML text, or why it is not read. -/
def read (cs : List Char) : Except Fault Datum :=
  match readNode? cs with
  | none => .error .malformed
  | some n => n.toDatum

end Yaml

end BlockDoc
