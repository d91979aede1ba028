import BlockDoc.Datum.Basic

/-!
# Metadata of documents

Where the block of a document stands and what it refers to.

## Main definitions

* `ReferenceMeta` — a block that is referred to
* `Metadata` — the metadata of a document
* `Metadata.toDatum` — the metadata as a mapping, in which what is absent is left out
-/

namespace BlockDoc

/-- A block to which the attributes of another block refer. -/
structure ReferenceMeta where
  id : String
  label : String
  name : String
  deriving DecidableEq, Repr

/-- What a document says about its block: its path and its type, if they are recorded, its first
label, the lines on which it stands, and the blocks to which it refers. -/
structure Metadata where
  path : Option String
  type : Option String
  label : Option String
  filename : String
  lineStart : Int
  lineEnd : Int
  references : Option (List ReferenceMeta)
  deriving DecidableEq, Repr

/-- The description of a block that is referred to as a mapping. -/
def ReferenceMeta.toDatum (r : ReferenceMeta) : Datum :=
  .object [("id", .str r.id), ("label", .str r.label), ("name", .str r.name)]

namespace Metadata

/-- The members of the mapping, each with its value if it has one. -/
def members (m : Metadata) : List (String × Option Datum) :=
  [("path", m.path.map .str),
   ("type", m.type.map .str),
   ("label", m.label.map .str),
   ("filename", some (.str m.filename)),
   ("line_start", some (.int m.lineStart)),
   ("line_end", some (.int m.lineEnd)),
   ("references", m.references.map fun rs => .list (rs.map ReferenceMeta.toDatum))]

/-- The metadata as a mapping, in which what is absent is left out. -/
def toDatum (m : Metadata) : Datum :=
  .object (m.members.filterMap fun e => e.2.map fun d => (e.1, d))

end Metadata

end BlockDoc
