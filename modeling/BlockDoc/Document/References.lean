import BlockDoc.Block.Basic
import BlockDoc.Document.Metadata
import BlockDoc.Journal

/-!
# Blocks under their addresses

The blocks that have been visited, under the addresses by which other blocks refer to them. A block
is found only by those that come after it, and of several blocks of one address the latest is found.

## Main definitions

* `ReferenceIndex` — the visited blocks
* `ReferenceIndex.register` — the index after a further block
* `ReferenceIndex.describe` — the descriptions of the blocks that are referred to
-/

namespace BlockDoc

/-- The visited blocks under their addresses. -/
abbrev ReferenceIndex := Table String RootBlock

/-- The description of a block that is referred to. -/
def Block.toReferenceMeta (b : Block) : ReferenceMeta :=
  ⟨b.id, b.typeLabel, b.nameLabel⟩

namespace ReferenceIndex

/-- The note on a block that takes the place of another one. -/
def replaced (reference : String) : LogRecord :=
  ⟨.debug, "tfdoc.converter",
    "Reference " ++ reference ++ " registered again, keeping the latest block"⟩

/-- The index after a further block. It is noted if another block had the same address. -/
def register (index : ReferenceIndex) (b : RootBlock) : Journaled ReferenceIndex := do
  match Table.find? index b.reference with
  | some earlier =>
    if earlier.key ≠ b.key then Journaled.note (replaced b.reference)
  | none => pure ()
  return Table.put index b.reference b

/-- The descriptions of the blocks that references lead to, in the order of the references.
References that lead to no visited block are left out. -/
def describe (index : ReferenceIndex) (references : List String) : List ReferenceMeta :=
  references.filterMap fun r => (Table.find? index r).map fun b => b.block.toReferenceMeta

end ReferenceIndex

end BlockDoc
