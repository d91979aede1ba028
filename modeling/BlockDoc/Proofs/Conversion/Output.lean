import BlockDoc.Proofs.Conversion.Run

/-!
# The output of a conversion

No block is lost, filed twice or filed under a wrong key: the output consists of the documents of
the supported root blocks, one for each, grouped by their keys in the order of the visits. The keys
may come from labels, and blocks of different types may share one.

## Main definitions

* `OutputOf` — how an output follows from its filings
-/

namespace BlockDoc

namespace Block

theorem isLabelled_iff (b : Block) :
    b.isLabelled = true ↔ b.type = "data" ∨ b.type = "resource" := by
  simp [isLabelled, labelledTypes]

theorem collectionKey_eq (b : Block) :
    b.collectionKey =
      if b.type = "data" ∨ b.type = "resource" then b.labels.headD "" else b.type := by
  simp only [collectionKey, isLabelled_iff, typeLabel]

theorem recordedType_eq (b : Block) :
    b.recordedType = if b.type = "data" ∨ b.type = "resource" then some b.type else none := by
  simp only [recordedType, isLabelled_iff]

end Block

/-- How the output of a conversion follows from its filings. -/
structure OutputOf (l : Lineage) (ms : List Module) (output : Collection Document)
    (fs : List Filing) : Prop where
  /-- There is one filing for each visit of a supported block, in the order of the visits. -/
  filed : Filed l (visits ms) fs
  /-- A document records its path in its module, and its type if it is filed under a label. -/
  metadata : ∀ f ∈ fs, ∃ path m, l.modulePath f.module = .ok path ∧
    Table.find? f.document Document.metadataKey = some (.metadata m) ∧
    m.path = some (f.root.block.path path) ∧
    m.type = if f.root.block.type = "data" ∨ f.root.block.type = "resource"
      then some f.root.block.type else none
  /-- The documents of data sources and resources are filed under their first labels, and those of
  other blocks under their types. -/
  key : ∀ f ∈ fs, f.root.block.collectionKey =
    if f.root.block.type = "data" ∨ f.root.block.type = "resource"
    then f.root.block.labels.headD "" else f.root.block.type
  /-- Under a key stand the documents of the blocks with that key, in the order of the visits. -/
  under : ∀ key, Table.find? output key =
    match fs.filter (fun f => f.root.block.collectionKey = key) with
    | [] => none
    | gs => some (gs.map Filing.document)
  /-- The keys stand in the order of their first occurrences. -/
  keys : Table.keys output = (fs.map fun f => f.root.block.collectionKey).eraseDups
  nonempty : ∀ e ∈ output, e.2 ≠ []
  /-- As many documents are filed as there are visits of supported blocks. -/
  size : Collection.size output =
    ((visits ms).filter fun v => v.root.block.IsSupported).length

/-- The blocks of the filings are the supported ones, in the order of the visits. -/
theorem Filed.map_toVisited {l : Lineage} {vs : List Visited} {fs : List Filing}
    (h : Filed l vs fs) :
    fs.map Filing.toVisited = vs.filter fun v => v.root.block.IsSupported := by
  calc fs.map Filing.toVisited
      = (fs.map fun f => (f.toVisited, f.position)).map Prod.fst := by
        rw [List.map_map]
        rfl
    _ = (vs.zipIdx.filter fun e => e.1.root.block.IsSupported).map Prod.fst := by
        rw [h.order]
    _ = (vs.zipIdx.map Prod.fst).filter fun v => v.root.block.IsSupported := by
        rw [List.filter_map]
        rfl
    _ = vs.filter fun v => v.root.block.IsSupported := by
        rw [List.zipIdx_map_fst]

theorem Filing.under_items (fs : List Filing) (key : String) :
    Collection.under (fs.map Filing.item) key =
      (fs.filter fun f => f.root.block.collectionKey = key).map Filing.document := by
  rw [Collection.under, List.filter_map, List.map_map]
  rfl

/-- The output of a conversion is made of one filing for each visit of a supported block. -/
theorem exists_outputOf_convert (l : Lineage) (ms : List Module) (output : Collection Document)
    (h : (convert l ms).outcome = .ok output) : ∃ fs, OutputOf l ms output fs := by
  obtain ⟨fs, hfs, rfl⟩ := exists_filed_of_convert h
  refine ⟨fs, hfs, ?_, fun f _ => f.root.block.collectionKey_eq, ?_, ?_,
    Collection.ne_nil_of_mem_ofItems _, ?_⟩
  · intro f hf
    obtain ⟨path, hpath, hdoc⟩ := (hfs.made f hf).built
    exact ⟨path, _, hpath, Block.find?_metadataKey_of_document hdoc, rfl,
      Block.recordedType_eq f.root.block⟩
  · intro key
    rw [Collection.find?_ofItems, Filing.under_items]
    cases fs.filter fun f => f.root.block.collectionKey = key with
    | nil => rfl
    | cons g gs => rfl
  · rw [Collection.keys_ofItems, List.map_map]
    rfl
  · rw [Collection.size_ofItems, List.length_map, ← hfs.map_toVisited, List.length_map]

namespace Collision

/-- A block without contents. -/
def block (type : String) (labels : List String) : Block where
  type := type
  labels := labels
  range := ⟨"main.tf", 1, 1, by decide⟩

/-- Two modules. A resource and a data source have the type of an output as their label, another
resource has no label, and a block has a type without documents. -/
def modules : List Module :=
  [⟨[⟨0, block "resource" ["output", "a"]⟩, ⟨1, block "module" ["m"]⟩, ⟨2, block "check" ["b"]⟩]⟩,
   ⟨[⟨3, block "output" ["c"]⟩, ⟨4, block "resource" []⟩, ⟨5, block "data" ["output", "d"]⟩]⟩]

/-- The second module is below the call in the first one. -/
def lineage : Lineage :=
  [(3, ⟨1, block "module" ["m"]⟩), (4, ⟨1, block "module" ["m"]⟩), (5, ⟨1, block "module" ["m"]⟩)]

/-- Blocks of three types share a key, and the empty label is a key. -/
theorem exists_outputOf_convert_collision :
    ∃ output fs, (convert lineage modules).outcome = .ok output ∧
      OutputOf lineage modules output fs ∧ Table.keys output = ["output", "module", ""] := by
  have hok : (convert lineage modules).outcome.toBool = true := by decide +kernel
  obtain ⟨output, h⟩ := exists_ok_of_toBool hok
  obtain ⟨fs, hfs⟩ := exists_outputOf_convert lineage modules output h
  refine ⟨output, fs, h, hfs, ?_⟩
  have hkeys : fs.map (fun f => f.root.block.collectionKey) =
      ((visits modules).filter fun v => v.root.block.IsSupported).map
        fun v => v.root.block.collectionKey := by
    rw [← hfs.filed.map_toVisited, List.map_map]
    rfl
  rw [hfs.keys, hkeys]
  decide +kernel

end Collision

end BlockDoc
