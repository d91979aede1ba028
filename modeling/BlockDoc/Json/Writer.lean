import BlockDoc.Binary64.Shortest
import BlockDoc.Datum.Basic
import BlockDoc.Json.Token
import BlockDoc.Text.Digit
import BlockDoc.Text.Lines
import BlockDoc.Text.Quoted

/-!
# Writing JSON

A value is written in one line or with one item a line. Texts are written in ASCII; the names of
members that are not strings are written as strings.

## Main definitions

* `Json.Layout` — separators and line breaks
* `Json.escaped` — a text in double quotes
* `Json.write` — the text of a value under a layout
* `Json.write?` — the same, refused if an integer has too many digits
-/

namespace BlockDoc

namespace Json

/-- How items are set apart: the texts between items and after names, and, if items stand on lines
of their own, the text that indents them by one level. -/
structure Layout where
  comma : String
  colon : String
  indent : Option String

/-- One line without blanks. -/
def Layout.compact : Layout := ⟨",", ":", none⟩

/-- One line with a blank after commas and colons. -/
def Layout.oneLine : Layout := ⟨", ", ": ", none⟩

/-- One item a line, each level indented by `unit`. -/
def Layout.indented (unit : String) : Layout := ⟨",", ": ", some unit⟩

/-! ## Texts and numbers -/

/-- A code unit as an escape with four hexadecimal digits. -/
def unitEscape (u : Nat) : List Char :=
  '\\' :: 'u' :: Text.hexPadded 4 u

/-- A character within double quotes. Quote, backslash and the common layout characters have short
escapes, and all else outside the printable ASCII characters is given by its code units. -/
def escapeChar (c : Char) : List Char :=
  match c with
  | '"' => ['\\', '"']
  | '\\' => ['\\', '\\']
  | '\n' => ['\\', 'n']
  | '\r' => ['\\', 'r']
  | '\t' => ['\\', 't']
  | '\x0c' => ['\\', 'f']
  | '\x08' => ['\\', 'b']
  | c =>
    let n := c.toNat
    if 0x20 ≤ n ∧ n ≤ 0x7E then [c]
    else if n < 0x10000 then unitEscape n
    else
      unitEscape (0xD800 + (n - 0x10000) / 0x400) ++ unitEscape (0xDC00 + (n - 0x10000) % 0x400)

/-- A text in double quotes. -/
def escaped (s : String) : String :=
  String.ofList ('"' :: (s.toList.flatMap escapeChar ++ ['"']))

/-- The names of the numbers without digits. -/
def numberNames : Binary64.Names := ⟨"NaN", "Infinity"⟩

/-- A floating-point number. -/
def floatText (x : Binary64) : String :=
  x.textWith Binary64.standardLayout numberNames

/-- A value without parts. -/
def scalarText : Datum → String
  | .null => "null"
  | .bool b => if b then "true" else "false"
  | .int n => Text.intText n
  | .float x => floatText x
  | .str s => escaped s
  | .list _ => "[]"
  | .map _ => "\x7b\x7d"

/-- The name of a member: a string as it is, and another value as a string of its text. -/
def nameText : Datum → String
  | .str s => escaped s
  | d => escaped (scalarText d)

/-! ## Values -/

/-- The line break before an item at a depth, or nothing within one line. -/
def Layout.break (layout : Layout) (depth : Nat) : String :=
  match layout.indent with
  | none => ""
  | some unit => "\n" ++ String.join (List.replicate depth unit)

/-- Parts between two marks: the parts one level deeper than the marks, and the marks alone if there
are no parts. -/
def Layout.enclose (layout : Layout) (depth : Nat) (first last : String) (parts : List String) :
    String :=
  if parts.isEmpty then first ++ last
  else
    first ++ layout.break (depth + 1) ++
      Text.joinWith (layout.comma ++ layout.break (depth + 1)) parts ++
      layout.break depth ++ last

mutual

/-- The text of a value at a depth. -/
def writeAt (layout : Layout) (depth : Nat) : Datum → String
  | .list items => layout.enclose depth "[" "]" (writeItems layout (depth + 1) items)
  | .map entries =>
    layout.enclose depth "\x7b" "\x7d" (writeMembers layout (depth + 1) entries)
  | d => scalarText d

/-- The texts of the items of a list. -/
def writeItems (layout : Layout) (depth : Nat) : List Datum → List String
  | [] => []
  | d :: rest => writeAt layout depth d :: writeItems layout depth rest

/-- The texts of the members of a mapping. -/
def writeMembers (layout : Layout) (depth : Nat) : List (Datum × Datum) → List String
  | [] => []
  | (k, v) :: rest =>
    (nameText k ++ layout.colon ++ writeAt layout depth v) :: writeMembers layout depth rest

end

/-- The text of a value. -/
def write (layout : Layout) (d : Datum) : String :=
  writeAt layout 0 d

mutual

/-- Whether every integer in a value has at most `limit` digits. -/
def withinDigits (limit : Nat) : Datum → Bool
  | .int n => n.natAbs < Nat.pow 10 limit
  | .list items => itemsWithinDigits limit items
  | .map entries => entriesWithinDigits limit entries
  | _ => true

/-- Whether every integer in a list has at most `limit` digits. -/
def itemsWithinDigits (limit : Nat) : List Datum → Bool
  | [] => true
  | d :: rest => withinDigits limit d && itemsWithinDigits limit rest

/-- Whether every integer in the members of a mapping has at most `limit` digits. -/
def entriesWithinDigits (limit : Nat) : List (Datum × Datum) → Bool
  | [] => true
  | (k, v) :: rest =>
    withinDigits limit k && withinDigits limit v && entriesWithinDigits limit rest

end

/-- The text of a value all of whose integers are short enough to be read back. -/
def write? (layout : Layout) (d : Datum) : Option String :=
  if withinDigits digitLimit d then some (write layout d) else none

end Json

end BlockDoc
