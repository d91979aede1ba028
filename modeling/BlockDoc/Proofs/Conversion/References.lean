import BlockDoc.Proofs.Conversion.Run
import BlockDoc.Proofs.Document.Nested

/-!
# References of documents

A reference in an attribute leads to the last root block of its address among those that have been
visited, the block itself included, and never to a nested block or to a block that is visited later.
This holds for the document of a root block and for all documents that stand in it, at any depth.

## Main definitions

* `lastWith?` — the last of some blocks with an address
* `Block.description` — what is said about a block to which another one refers
* `Block.resolved` — the descriptions of the blocks to which a block refers
* `Document.RefersTo` — the references in the metadata of a document

## Main results

* `references_of_convert` — the references in the documents of a conversion
-/

namespace BlockDoc

-- ════════════════════════════════════════════════════════════════════════
-- What an index holds
-- ════════════════════════════════════════════════════════════════════════

/-- The last of some root blocks with an address. -/
def lastWith? (bs : List RootBlock) (reference : String) : Option RootBlock :=
  bs.reverse.find? fun b => b.reference = reference

theorem lastWith?_concat (bs : List RootBlock) (b : RootBlock) (reference : String) :
    lastWith? (bs ++ [b]) reference =
      if b.reference = reference then some b else lastWith? bs reference := by
  rw [lastWith?, List.reverse_append, List.reverse_singleton, List.singleton_append,
    List.find?_cons]
  by_cases h : b.reference = reference <;> simp [h, lastWith?]

/-- A block that is found is one of the blocks and has the address. -/
theorem mem_of_lastWith? {bs : List RootBlock} {b : RootBlock} {reference : String}
    (h : lastWith? bs reference = some b) : b ∈ bs ∧ b.reference = reference :=
  ⟨List.mem_reverse.mp (List.mem_of_find?_eq_some h), by simpa using List.find?_some h⟩

/-- The index holds the last block of each address. -/
theorem ReferenceIndex.find?_ofBlocks (bs : List RootBlock) (reference : String) :
    Table.find? (ofBlocks bs) reference = lastWith? bs reference := by
  induction bs using List.reverseRecOn with
  | nil => rfl
  | append_singleton bs b ih =>
    rw [ofBlocks_concat, lastWith?_concat]
    by_cases h : b.reference = reference
    · rw [if_pos h, h, Table.find?_put_self]
    · rw [if_neg h, Table.find?_put_of_ne _ _ h, ih]

namespace Block

/-- What is said about a block to which another one refers: its identifier and its first two labels,
nothing in place of those that it does not have. -/
def description (b : Block) : ReferenceMeta :=
  ⟨b.id, b.labels.headD "", (b.labels.drop 1).headD ""⟩

/-- The descriptions of the root blocks among `bs` to which the attributes of `c` refer: each
reference once, in the order of the first occurrences, and without those that lead to no block. -/
def resolved (bs : List RootBlock) (c : Block) : List ReferenceMeta :=
  (c.attributes.flatMap Attribute.references).eraseDups.filterMap fun r =>
    (lastWith? bs r).map fun b => b.block.description

theorem describe_ofBlocks (bs : List RootBlock) (c : Block) :
    (ReferenceIndex.ofBlocks bs).describe c.references = c.resolved bs := by
  unfold ReferenceIndex.describe resolved references
  simp only [ReferenceIndex.find?_ofBlocks]
  rfl

theorem metadata_references (bs : List RootBlock) (c : Block) (path type : Option String) :
    (c.metadata (.ofBlocks bs) path type).references =
      if c.resolved bs = [] then none else some (c.resolved bs) := by
  unfold metadata
  rw [describe_ofBlocks]
  cases c.resolved bs with
  | nil => rfl
  | cons r rs => rfl

/-- A description comes from one of the blocks. -/
theorem exists_of_mem_resolved {bs : List RootBlock} {c : Block} {r : ReferenceMeta}
    (h : r ∈ c.resolved bs) : ∃ b ∈ bs, r = b.block.description := by
  obtain ⟨reference, -, hr⟩ := List.mem_filterMap.mp h
  obtain ⟨b, hb, rfl⟩ := Option.map_eq_some_iff.mp hr
  exact ⟨b, (mem_of_lastWith? hb).1, rfl⟩

/-- A reference to the address of the last block leads to that block. -/
theorem mem_resolved_concat {bs : List RootBlock} {b : RootBlock} {c : Block}
    (h : b.reference ∈ c.attributes.flatMap Attribute.references) :
    b.block.description ∈ c.resolved (bs ++ [b]) := by
  refine List.mem_filterMap.mpr ⟨b.reference, List.mem_eraseDups.mpr h, ?_⟩
  rw [lastWith?_concat, if_pos rfl]
  rfl

end Block

-- ════════════════════════════════════════════════════════════════════════
-- Metadata as data
-- ════════════════════════════════════════════════════════════════════════

/-- The references stand in the mapping if and only if there are any. -/
theorem Metadata.field?_references (m : Metadata) :
    m.toDatum.field? "references" =
      m.references.map fun rs => .list (rs.map ReferenceMeta.toDatum) :=
  m.field?_toDatum "references"

-- ════════════════════════════════════════════════════════════════════════
-- References in a conversion
-- ════════════════════════════════════════════════════════════════════════

/-- The references in the metadata of a document are the given ones, and are absent if there are
none. -/
def Document.RefersTo (d : Document) (rs : List ReferenceMeta) : Prop :=
  ∃ m, d.toDatum.field? metadataKey = some m ∧ m.field? "references" =
    if rs = [] then none else some (.list (rs.map ReferenceMeta.toDatum))

/-- In a document that is built with the index of root blocks, the references are resolved among
these. -/
theorem Block.refersTo_of_document {bs : List RootBlock} {path type : Option String} {c : Block}
    {e : Document} (h : (document (.ofBlocks bs) path type c).outcome = .ok e) :
    e.RefersTo (c.resolved bs) := by
  refine ⟨_, (contents_of_document h).metadata, ?_⟩
  rw [Metadata.field?_references, metadata_references]
  split <;> rfl

/-- What the document `d` that has been filed for the visit `v` at position `k` says about
references, and what the documents in it say. They are resolved among the root blocks that have been
visited so far, the block itself included. -/
structure ReferencesAt (l : Lineage) (ms : List Module) (output : Collection Document) (k : Nat)
    (v : Visited) (bs : List RootBlock) (path : String) (d : Document) : Prop where
  /-- The root blocks visited so far. -/
  blocks : bs = ((visits ms).take (k + 1)).map Visited.root
  path_eq : l.modulePath v.module = .ok path
  /-- The document of the root block has been filed. -/
  filed : ∃ ds, Table.find? output v.root.block.collectionKey = some ds ∧ d ∈ ds
  built : (v.root.block.document (.ofBlocks bs) (some (v.root.block.path path))
    v.root.block.recordedType).outcome = .ok d
  /-- The references of the document, and of those that stand in it for blocks below the root
  block, are the resolved ones. -/
  resolved : ∀ c e, v.root.block.Stands d c e → e.RefersTo (c.resolved bs)
  /-- All documents in the document stand for blocks below the root block. -/
  nested : ∀ e, d.Contains e → ∃ c, v.root.block.IsAbove c ∧ v.root.block.Stands d c e
  /-- At every level, there is a document for each logical child that nothing replaces. -/
  exposed : ∀ c e, v.root.block.Stands d c e → ∀ k ∈ c.logicalChildren.result, c.Exposes k.type →
    ∃ f, c.Places e k f
  /-- A document is built for every block below the root block, also where it is replaced. -/
  below : ∀ c, v.root.block.IsAbove c → ∃ e, (c.document (.ofBlocks bs) none none).outcome = .ok e ∧
    e.RefersTo (c.resolved bs)
  /-- No reference leads to a nested block or to a block that is visited later. -/
  visited : ∀ (c : Block), ∀ r ∈ c.resolved bs, ∃ (j : Nat) (w : Visited), j ≤ k ∧
    (visits ms)[j]? = some w ∧ r = w.root.block.description
  /-- A reference to the address of the root block itself leads to the root block. -/
  itself : ∀ c : Block, v.root.reference ∈ c.attributes.flatMap Attribute.references →
    v.root.block.description ∈ c.resolved bs

theorem exists_visited_of_mem_take {vs : List Visited} {k : Nat} {b : RootBlock}
    (h : b ∈ (vs.take (k + 1)).map Visited.root) :
    ∃ (j : Nat) (w : Visited), j ≤ k ∧ vs[j]? = some w ∧ w.root = b := by
  obtain ⟨w, hw, hroot⟩ := List.mem_map.mp h
  obtain ⟨j, hj, hget⟩ := List.mem_take_iff_getElem.mp hw
  exact ⟨j, w, by omega, List.getElem?_eq_some_iff.mpr ⟨by omega, hget⟩, hroot⟩

/-- For every supported root block of a conversion, the references in its document and in the
documents that stand in it lead to the last root block of their address visited so far. -/
theorem references_of_convert (l : Lineage) (ms : List Module) (output : Collection Document)
    (h : (convert l ms).outcome = .ok output) (k : Nat) (v : Visited)
    (hk : (visits ms)[k]? = some v) (hs : v.root.block.IsSupported) :
    ∃ bs path d, ReferencesAt l ms output k v bs path d := by
  obtain ⟨fs, hfs, rfl⟩ := exists_filed_of_convert h
  obtain ⟨f, hf, rfl, rfl⟩ := hfs.exists_filing hk hs
  obtain ⟨path, hpath, hdoc⟩ := (hfs.made f hf).built
  have hlast : ((visits ms).take (f.position + 1)).map Visited.root =
      ((visits ms).take f.position).map Visited.root ++ [f.root] := by
    rw [List.take_add_one, hk]
    simp
  refine ⟨_, path, f.document, rfl, hpath, ?_, hdoc, ?_, ?_, ?_, ?_, ?_, ?_⟩
  · exact Collection.exists_find?_ofItems (List.mem_map_of_mem hf)
  · intro c e hc
    obtain ⟨p, t, hbuilt⟩ := Block.exists_document_of_stands hdoc hc
    exact Block.refersTo_of_document hbuilt
  · intro e he
    obtain ⟨c, habove, hc, -⟩ := Block.exists_stands_of_contains hdoc he
    exact ⟨c, habove, hc⟩
  · intro c e hc k hk hexposes
    obtain ⟨g, hg, -⟩ := Block.exists_places_of_stands hdoc hc hk hexposes
    exact ⟨g, hg⟩
  · intro c hc
    obtain ⟨e, he⟩ := Block.exists_document_of_isAbove hdoc hc
    exact ⟨e, he, Block.refersTo_of_document he⟩
  · intro c r hr
    obtain ⟨b, hb, rfl⟩ := Block.exists_of_mem_resolved hr
    obtain ⟨j, w, hj, hw, rfl⟩ := exists_visited_of_mem_take hb
    exact ⟨j, w, hj, hw, rfl⟩
  · intro c hc
    rw [hlast]
    exact Block.mem_resolved_concat hc

namespace Shadowing

/-- A block on the first two lines of a file, with references in one attribute. -/
def block (type : String) (labels : List String) (id : String) (references : List String)
    (children : List Block) : Block where
  type := type
  labels := labels
  id := id
  attributes := [{ name := "refers_to", references }]
  children := children
  range := ⟨"main.tf", 1, 2, by decide⟩

/-- The call of the second module. -/
def call : RootBlock := ⟨1, block "module" ["m"] "" [] []⟩

/-- A block within the next one that refers to itself and to that one. -/
def nested : Block := block "k" ["n"] "nested" ["k.n", "a.c"] []

/-- A block that refers to an address used in both modules, to a block without a document, to
itself, to a block that is visited later and to its own child, which refers to it and to itself. -/
def referring : RootBlock :=
  ⟨4, block "resource" ["a", "c"] "itself" ["a.b", "check.x", "a.c", "a.d", "a.b", "k.n"] [nested]⟩

/-- Two modules with blocks of one address. -/
def modules : List Module :=
  [⟨[⟨0, block "resource" ["a", "b"] "first" [] []⟩, call, ⟨2, block "check" ["x"] "plain" [] []⟩]⟩,
   ⟨[⟨3, block "resource" ["a", "b"] "second" [] []⟩, referring,
      ⟨5, block "resource" ["a", "d"] "later" [] []⟩]⟩]

/-- The second module is below the call. -/
def lineage : Lineage := [(3, call), (4, call), (5, call)]

theorem exposes_nested : referring.block.Exposes nested.type where
  ne_metadataKey := by decide
  not_id := by decide
  ne_name := by decide

/-- The address that is used twice leads to the latest block, the block without a document and the
block itself are found, and the later block and the child are not. Nor is the child found from
within, while the block around it is. -/
theorem references_of_convert_referring :
    ∃ output m bs path d, (convert lineage modules).outcome = .ok output ∧
      (visits modules)[4]? = some ⟨m, referring⟩ ∧ referring.block.IsSupported ∧
      ReferencesAt lineage modules output 4 ⟨m, referring⟩ bs path d ∧
      (referring.block.resolved bs).map ReferenceMeta.id = ["second", "plain", "itself"] ∧
      ∃ e, referring.block.Stands d nested e ∧ e.RefersTo (nested.resolved bs) ∧
        (nested.resolved bs).map ReferenceMeta.id = ["itself"] := by
  have hok : (convert lineage modules).outcome.toBool = true := by decide +kernel
  obtain ⟨output, h⟩ := exists_ok_of_toBool hok
  have hs : referring.block.IsSupported := by decide
  obtain ⟨bs, path, d, hr⟩ := references_of_convert lineage modules output h 4 _ rfl hs
  have hchild : nested ∈ referring.block.logicalChildren.result := List.mem_singleton_self nested
  obtain ⟨e, he⟩ := hr.exposed _ d .whole nested hchild exposes_nested
  have hstands : referring.block.Stands d nested e := .part .whole he
  refine ⟨output, _, bs, path, d, h, rfl, hs, hr, ?_, e, hstands, hr.resolved nested e hstands, ?_⟩
  · rw [hr.blocks]
    decide +kernel
  · rw [hr.blocks]
    decide +kernel

end Shadowing

end BlockDoc
