import BlockDoc.Proofs.Conversion.Output
import BlockDoc.Proofs.Document.Nested

/-!
# Metadata of all documents

Every document of a conversion, at any depth, has metadata that describe its block. Those of a root
block record its path, and its type if it is filed under a label; the documents of the blocks below
it record neither. No document is that of a template.

## Main definitions

* `Filing.IsDescribed` — the metadata of a document that has been filed, and of those in it
* `DescribedOutput` — this is so of all documents of an output

## Main results

* `describedOutput_of_convert` — it is so of the output of every conversion
-/

namespace BlockDoc

/-- A document that has been filed describes its root block, and the documents that are built on the
way to it, those that stand in it among them, describe the blocks below that. -/
structure Filing.IsDescribed (l : Lineage) (vs : List Visited) (f : Filing) : Prop where
  /-- Of all documents, those of root blocks record a path, and those of data sources and resources
  among them record the type. -/
  whole : ∃ path, l.modulePath f.module = .ok path ∧
    f.document.Describes f.root.block (some (f.root.block.path path))
      (if f.root.block.type = "data" ∨ f.root.block.type = "resource"
        then some f.root.block.type else none)
  type_ne : f.root.block.type ≠ Block.dynamicType
  /-- There is a document of each block below the root block. -/
  below : ∀ c, f.root.block.IsAbove c → c.type ≠ Block.dynamicType ∧
    ∃ e, (c.document (f.index vs) none none).outcome = .ok e ∧ e.Describes c none none
  /-- At every level, a document stands for each logical child that nothing replaces, and describes
  that child. -/
  exposed : ∀ c e, f.root.block.Stands f.document c e → ∀ k ∈ c.logicalChildren.result,
    c.Exposes k.type → ∃ g, c.Places e k g ∧ g.Describes k none none
  /-- No other documents stand in that of the root block. -/
  nested : ∀ e, f.document.Contains e → ∃ c, f.root.block.IsAbove c ∧
    (c.document (f.index vs) none none).outcome = .ok e ∧ e.Describes c none none

/-- The documents of an output describe the blocks that have been visited. -/
structure DescribedOutput (l : Lineage) (ms : List Module) (output : Collection Document) :
    Prop where
  /-- The document of each supported root block has been filed. -/
  roots : ∀ (k : Nat) (v : Visited), (visits ms)[k]? = some v → v.root.block.IsSupported →
    ∃ f : Filing, f.toVisited = v ∧ f.position = k ∧ f.IsMade l (visits ms) ∧
      f.IsDescribed l (visits ms) ∧
      ∃ ds, Table.find? output v.root.block.collectionKey = some ds ∧ f.document ∈ ds
  /-- No other documents have been filed. -/
  filed : ∀ e ∈ output, ∀ d ∈ e.2, ∃ f : Filing, f.document = d ∧ f.IsMade l (visits ms) ∧
    f.IsDescribed l (visits ms)

theorem Filing.IsMade.isDescribed {l : Lineage} {vs : List Visited} {f : Filing}
    (h : f.IsMade l vs) : f.IsDescribed l vs := by
  obtain ⟨path, hpath, hdoc⟩ := h.built
  refine ⟨⟨path, hpath, ?_⟩, ?_, ?_, ?_, ?_⟩
  · rw [← Block.recordedType_eq]
    exact Block.describes_of_document hdoc
  · intro htype
    have hsupported : Block.dynamicType ∈ supportedTypes := htype ▸ h.supported
    exact absurd hsupported (by decide)
  · intro c hc
    obtain ⟨e, he⟩ := Block.exists_document_of_isAbove hdoc hc
    exact ⟨Block.type_ne_dynamicType_of_isAbove hc, e, he, Block.describes_of_document he⟩
  · intro c e hc k hk hexposes
    obtain ⟨g, hg, hbuilt⟩ := Block.exists_places_of_stands hdoc hc hk hexposes
    exact ⟨g, hg, Block.describes_of_document hbuilt⟩
  · intro e he
    obtain ⟨c, hc, -, hbuilt⟩ := Block.exists_stands_of_contains hdoc he
    exact ⟨c, hc, hbuilt, Block.describes_of_document hbuilt⟩

/-- All documents of a conversion describe their blocks. -/
theorem describedOutput_of_convert (l : Lineage) (ms : List Module)
    (output : Collection Document) (h : (convert l ms).outcome = .ok output) :
    DescribedOutput l ms output := by
  obtain ⟨fs, hfs, rfl⟩ := exists_filed_of_convert h
  refine ⟨?_, ?_⟩
  · intro k v hk hs
    obtain ⟨f, hf, rfl, rfl⟩ := hfs.exists_filing hk hs
    have hmade := hfs.made f hf
    exact ⟨f, rfl, rfl, hmade, hmade.isDescribed,
      Collection.exists_find?_ofItems (List.mem_map_of_mem hf)⟩
  · refine Collection.forall_mem_ofItems (P := fun d => ∃ f : Filing, f.document = d ∧
      f.IsMade l (visits ms) ∧ f.IsDescribed l (visits ms)) fun i hi => ?_
    obtain ⟨f, hf, rfl⟩ := List.mem_map.mp hi
    have hmade := hfs.made f hf
    exact ⟨f, rfl, hmade, hmade.isDescribed⟩

namespace Forged

/-- A block with attributes under the names for metadata and for the identifier. -/
def block (type : String) (labels : List String) (startLine endLine : Nat)
    (children : List Block) (h : startLine ≤ endLine := by decide) : Block where
  type := type
  labels := labels
  attributes := [{ name := "__tfmeta", value := .string (.str "forged") }, { name := "id" }]
  children := children
  id := "i-1"
  range := ⟨"main.tf", startLine, endLine, h⟩

/-- A template with one instance, which starts on the first line of the template. -/
def template : Block where
  type := "dynamic"
  labels := ["ingress"]
  attributes := [{ name := "for_each", value := .sequence .set (some [.string (.str "a")]) }]
  range := ⟨"main.tf", 42, 46, by decide⟩

/-- The call of the second module. -/
def call : RootBlock := ⟨1, block "module" ["m"] 51 52 []⟩

/-- Two modules. In the first one there are blocks under the names for metadata and for the
identifier among the children of a resource, and within an instance of a template; in the second one
there is a template among the root blocks. -/
def modules : List Module :=
  [⟨[⟨0, block "resource" ["aws_instance", "web"] 41 49
      [template, block "ingress" [""] 42 46 [block "__tfmeta" ["__tfmeta"] 44 45 []],
        block "id" [] 47 47 [], block "__tfmeta" ["a"] 48 48 []]⟩, call]⟩,
   ⟨[⟨2, block "output" ["url"] 61 62 []⟩, ⟨3, template⟩]⟩]

/-- The second module is below the call. -/
def lineage : Lineage := [(2, call), (3, call)]

/-- No forged metadata take the place of those that describe a block. -/
theorem describedOutput_of_convert_forged :
    ∃ output, (convert lineage modules).outcome = .ok output ∧
      DescribedOutput lineage modules output := by
  have hok : (convert lineage modules).outcome.toBool = true := by decide +kernel
  obtain ⟨output, h⟩ := exists_ok_of_toBool hok
  exact ⟨output, h, describedOutput_of_convert lineage modules output h⟩

end Forged

end BlockDoc
