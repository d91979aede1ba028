import BlockDoc.Document.Builder
import BlockDoc.Proofs.Json.Data
import BlockDoc.Proofs.Table

/-!
# Metadata of blocks

The metadata of a block as a mapping say where the block stands, and give its first label if there
is one and it is not empty. The path and the type stand in the mapping if they are recorded, and are
left out otherwise.

## Main definitions

* `Block.IsDescribedBy` — what the metadata of a block say about it

## Main results

* `Metadata.field?_toDatum` — what has no value is left out of the mapping
* `Block.isDescribedBy_metadata` — the metadata of a block describe it
-/

namespace BlockDoc

namespace Metadata

theorem nodup_keys_members (m : Metadata) : (Table.keys m.members).Nodup := by
  show ["path", "type", "label", "filename", "line_start", "line_end", "references"].Nodup
  decide

/-- What has no value is left out of the mapping, and all else stands there under its name. -/
theorem field?_toDatum (m : Metadata) (name : String) :
    m.toDatum.field? name = (Table.find? m.members name).join := by
  rw [toDatum, Datum.field?_object]
  exact Table.find?_filterMap m.nodup_keys_members name

end Metadata

namespace Block

/-- Data give the range of a block and its first label, and the path and the type if there are
any. -/
structure IsDescribedBy (b : Block) (path type : Option String) (m : Datum) : Prop where
  filename : m.field? "filename" = some (.str b.range.filename)
  line_start : m.field? "line_start" = some (.int b.range.startLine)
  line_end : m.field? "line_end" = some (.int b.range.endLine)
  ordered : b.range.startLine ≤ b.range.endLine
  /-- The first label stands there if and only if there is one that is not empty. -/
  label_iff : ∀ d, m.field? "label" = some d ↔ ∃ s rest, b.labels = s :: rest ∧ s ≠ "" ∧ d = .str s
  path : m.field? "path" = path.map .str
  type : m.field? "type" = type.map .str

theorem nonEmpty?_eq_some_iff {s t : String} : nonEmpty? s = some t ↔ s ≠ "" ∧ t = s := by
  unfold nonEmpty?
  split
  · next h => simp [h]
  · next h => simp [h, eq_comm]

theorem nonEmpty?_typeLabel_eq_some_iff {b : Block} {s : String} :
    nonEmpty? b.typeLabel = some s ↔ ∃ rest, b.labels = s :: rest ∧ s ≠ "" := by
  rw [nonEmpty?_eq_some_iff, typeLabel]
  cases b.labels with
  | nil => simp
  | cons first rest =>
    rw [List.headD_cons]
    constructor
    · rintro ⟨hne, rfl⟩
      exact ⟨rest, rfl, hne⟩
    · rintro ⟨_, hcons, hne⟩
      obtain ⟨rfl, -⟩ := List.cons.inj hcons
      exact ⟨hne, rfl⟩

theorem isDescribedBy_metadata (b : Block) (index : ReferenceIndex) (path type : Option String) :
    b.IsDescribedBy path type (b.metadata index path type).toDatum where
  filename := Metadata.field?_toDatum _ _
  line_start := Metadata.field?_toDatum _ _
  line_end := Metadata.field?_toDatum _ _
  ordered := b.range.startLine_le_endLine
  label_iff d := by
    have hlabel : (b.metadata index path type).toDatum.field? "label" =
        (nonEmpty? b.typeLabel).map .str := Metadata.field?_toDatum _ _
    rw [hlabel, Option.map_eq_some_iff]
    simp only [nonEmpty?_typeLabel_eq_some_iff]
    constructor
    · rintro ⟨s, ⟨rest, hlabels, hne⟩, rfl⟩
      exact ⟨s, rest, hlabels, hne, rfl⟩
    · rintro ⟨s, rest, hlabels, hne, rfl⟩
      exact ⟨s, ⟨rest, hlabels, hne⟩, rfl⟩
  path := Metadata.field?_toDatum _ _
  type := Metadata.field?_toDatum _ _

end Block

end BlockDoc
