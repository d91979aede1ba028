import BlockDoc.Text.Lines

/-!
# Paths

A path is the list of the names on the way to a file. Names that lead nowhere else are left out, so
that the text of a path is a normal form; the name of the enclosing folder is kept.

## Main definitions

* `Path` — the paths
* `Path.ofText`, `Path.text` — paths and texts
* `Path.suffix` — the end of the last name from its last point on
-/

namespace BlockDoc

/-- The names on the way to a file; a path from the root starts with the name of the root. -/
structure Path where
  parts : List String
  deriving DecidableEq, Repr

namespace Path

/-- The name of the root. -/
def root : String := "/"

/-- The name of the enclosing folder. -/
def enclosing : String := ".."

/-- The path that a text denotes. -/
def ofText (s : String) : Path :=
  let names := (Text.split '/' s).filter fun name => name ≠ "" && name ≠ "."
  if s.toList.head? = some '/' then ⟨root :: names⟩ else ⟨names⟩

/-- The text of a path; that of the empty path is a point. -/
def text (p : Path) : String :=
  match p.parts with
  | [] => "."
  | name :: rest =>
    if name = root then root ++ Text.joinWith "/" rest else Text.joinWith "/" (name :: rest)

/-- The last name, or nothing. -/
def name (p : Path) : String :=
  p.parts.getLast?.getD ""

/-- The end of the last name from its last point on; empty if that point is the first or the last
character of the name. -/
def suffix (p : Path) : String :=
  let cs := p.name.toList
  let extension := (cs.reverse.takeWhile (· ≠ '.')).reverse
  if extension.isEmpty || cs.length ≤ extension.length + 1 then ""
  else String.ofList ('.' :: extension)

end Path

end BlockDoc
