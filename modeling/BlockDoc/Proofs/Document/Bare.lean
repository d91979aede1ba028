import BlockDoc.Document.Builder
import BlockDoc.Proofs.Document.Contents

/-!
# Documents without references

The index of references has an effect on nothing in a document but the references in its metadata
and in the metadata of the documents within it. `Block.withoutReferences_document` says so for the
computation as a whole: with the references left out, the document, the faults and the notes are
those with an empty index.

## Main definitions

* `Metadata.withoutReferences` — metadata without the blocks that are referred to
* `Document.bareEntry` — an entry without the references in the documents under it
* `Document.withoutReferences` — a document without the references in it
-/

namespace BlockDoc

/-- The metadata without the blocks that are referred to. -/
def Metadata.withoutReferences (m : Metadata) : Metadata :=
  { m with references := none }

/-- Only the member for the references is left out of the mapping. -/
theorem Metadata.toDatum_withoutReferences (m : Metadata) :
    m.withoutReferences.toDatum =
      .object ((m.members.filter fun e => e.1 ≠ "references").filterMap
        fun e => e.2.map fun d => (e.1, d)) := by
  have hmembers : m.withoutReferences.members =
      (m.members.filter fun e => e.1 ≠ "references") ++ [("references", none)] := by
    simp [members, withoutReferences]
  rw [toDatum, hmembers, List.filterMap_append]
  simp

namespace Document

mutual

/-- An entry without the references in the metadata of the documents under it. -/
def bareEntry : Entry → Entry
  | .value d => .value d
  | .single entries => .single (bareEntries entries)
  | .several documents => .several (bareDocuments documents)
  | .metadata m => .metadata m.withoutReferences
termination_by structural e => e

/-- The entries of a document without the references in them. -/
def bareEntries : List (String × Entry) → List (String × Entry)
  | [] => []
  | (name, e) :: rest => (name, bareEntry e) :: bareEntries rest
termination_by structural entries => entries

def bareDocuments : List (List (String × Entry)) → List (List (String × Entry))
  | [] => []
  | entries :: rest => bareEntries entries :: bareDocuments rest
termination_by structural documents => documents

end

/-- A document without the references in its metadata and in those of the documents within it. -/
def withoutReferences (d : Document) : Document :=
  bareEntries d

theorem withoutReferences_eq_map (d : Document) :
    d.withoutReferences = d.map fun e => (e.1, bareEntry e.2) := by
  unfold withoutReferences
  induction d with
  | nil => rfl
  | cons e rest ih => rw [bareEntries, ih, List.map_cons]

theorem bareDocuments_eq_map (ds : List Document) :
    bareDocuments ds = ds.map withoutReferences := by
  induction ds with
  | nil => rfl
  | cons d rest ih => rw [bareDocuments, ih, List.map_cons, withoutReferences]

/-- Documents under their keys, without the references in them. -/
def bareItems (items : List (String × Document)) : List (String × Document) :=
  items.map fun e => (e.1, e.2.withoutReferences)

end Document

namespace Block

-- ════════════════════════════════════════════════════════════════════════
-- Parts of a document
-- ════════════════════════════════════════════════════════════════════════

theorem metadata_withoutReferences (b : Block) (index : ReferenceIndex)
    (path type : Option String) :
    (b.metadata index path type).withoutReferences = b.metadata [] path type := by
  have hnone : ReferenceIndex.describe [] b.references = [] := by
    simp [ReferenceIndex.describe]
  rw [metadata, metadata, hnone]
  rfl

theorem bareEntry_groupEntry (ds : List Document) :
    Document.bareEntry (groupEntry (.ofList ds)) =
      groupEntry (.ofList (ds.map Document.withoutReferences)) := by
  match ds with
  | [] => rfl
  | [d] => rfl
  | d :: e :: rest => exact congrArg Entry.several (Document.bareDocuments_eq_map (d :: e :: rest))

/-- The references of an assembled document are those of its parts and of its metadata. -/
theorem withoutReferences_assemble (parts : List (String × Document))
    (values : List (String × Entry)) (id : String) (m : Metadata) :
    (assemble parts values id m).withoutReferences =
      assemble (Document.bareItems parts) (values.map fun e => (e.1, Document.bareEntry e.2)) id
        m.withoutReferences := by
  have hgroups : ((Collection.ofItems (Document.bareItems parts)).groups.map
      fun e => (e.1, groupEntry e.2)) =
        ((Collection.ofItems parts).groups.map fun e => (e.1, groupEntry e.2)).map
          fun e => (e.1, Document.bareEntry e.2) := by
    rw [Document.bareItems, Collection.ofItems_map]
    simp only [Collection.groups, List.map_map]
    refine List.map_congr_left fun e _ => ?_
    exact congrArg (Prod.mk e.1) (bareEntry_groupEntry e.2).symm
  rw [Document.withoutReferences_eq_map]
  unfold assemble
  dsimp only
  rw [← Table.put_map, hgroups, Table.putAll_map]
  split
  · rfl
  · rw [← Table.put_map]
    rfl

/-- Attributes give plain values, in which there are no references. -/
theorem bareEntry_attributeEntries (b : Block) (as : List Attribute) :
    (List.map fun e => (e.1, Document.bareEntry e.2)) <$> b.attributeEntries as =
      b.attributeEntries as := by
  induction as with
  | nil => rfl
  | cons a rest ih =>
    simp only [attributeEntries, map_bind, map_pure, List.map_cons, Document.bareEntry]
    refine bind_congr fun d => ?_
    calc (b.attributeEntries rest >>= fun others =>
          pure ((a.name, Entry.value d) :: others.map fun e => (e.1, Document.bareEntry e.2)))
        = ((List.map fun e => (e.1, Document.bareEntry e.2)) <$> b.attributeEntries rest) >>=
            fun others => pure ((a.name, Entry.value d) :: others) := by
          rw [bind_map_left]
      _ = b.attributeEntries rest >>= fun others =>
            pure ((a.name, Entry.value d) :: others) := by
          rw [ih]

-- ════════════════════════════════════════════════════════════════════════
-- Documents
-- ════════════════════════════════════════════════════════════════════════

/-- The documents of the marked children, if the index has no effect on the document of any child
but for its references. -/
theorem bareItems_childDocuments {index : ReferenceIndex} {cs : List Block}
    (h : ∀ c ∈ cs, Document.withoutReferences <$> document index none none c =
      document [] none none c) (marks : List Bool) :
    Document.bareItems <$> childDocuments index marks cs = childDocuments [] marks cs := by
  induction cs generalizing marks with
  | nil => rfl
  | cons c rest ih =>
    obtain ⟨hc, hrest⟩ := List.forall_mem_cons.mp h
    match marks with
    | [] => rfl
    | false :: marks => exact ih hrest marks
    | true :: marks =>
      simp only [childDocuments, map_bind, map_pure]
      rw [← hc, ← ih hrest marks]
      simp only [bind_map_left]
      rfl

/-- The index has an effect on the references in a document, and on nothing else: neither on the
rest of the document, nor on the faults and notes on the way to it. -/
theorem withoutReferences_document (index : ReferenceIndex) (path type : Option String)
    (b : Block) :
    Document.withoutReferences <$> document index path type b = document [] path type b := by
  induction b using induction_children generalizing path type with
  | step b ih =>
    cases b with
    | mk blockType labels attributes children id key range explicit =>
      -- The children are selected without the index, so both sides have the same marks.
      simp only [document, map_bind, map_pure]
      refine bind_congr fun marks => ?_
      rw [← bareItems_childDocuments (fun c hc => ih c hc none none) marks]
      simp only [bind_map_left]
      refine bind_congr fun parts => ?_
      conv_rhs => rw [← bareEntry_attributeEntries, bind_map_left]
      refine bind_congr fun values => ?_
      rw [withoutReferences_assemble, metadata_withoutReferences]

theorem document_outcome_withoutReferences (index : ReferenceIndex) (path type : Option String)
    (b : Block) :
    (b.document index path type).outcome.map Document.withoutReferences =
      (b.document [] path type).outcome := by
  rw [← Attempt.outcome_map, withoutReferences_document]

end Block

end BlockDoc
