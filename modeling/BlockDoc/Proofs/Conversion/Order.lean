import BlockDoc.Proofs.Conversion.Output
import BlockDoc.Proofs.Conversion.Success
import BlockDoc.Proofs.Lineage.Path

/-!
# The order of visits

Whether a conversion succeeds does not depend on the order in which modules and blocks are visited.
Nor does its output, but for the order of its keys and lists and for the references in its
documents: a document is that of its block with an empty index, and the path of a module is that of
the set of the names of its blocks.

## Main definitions

* `Rearranged` — lists of modules that differ in the order of modules and blocks
* `SameButReferences` — outputs that differ in order and references
-/

namespace BlockDoc

-- ════════════════════════════════════════════════════════════════════════
-- Documents without references
-- ════════════════════════════════════════════════════════════════════════

/-- What a root block of a module gives to the output, its references left out: its document with an
empty index, if its type is supported. -/
def Module.bareItem? (l : Lineage) (m : Module) (b : RootBlock) : Option (String × Document) :=
  match l.modulePath m with
  | .error _ => none
  | .ok path =>
    match (b.block.document [] (some (b.block.path path)) b.block.recordedType).outcome with
    | .error _ => none
    | .ok d => if b.block.IsSupported then some (b.block.collectionKey, d) else none

/-- What the root blocks of a module give to the output, their references left out. -/
def Module.bareItems (l : Lineage) (m : Module) : List (String × Document) :=
  m.blocks.filterMap (Module.bareItem? l m)

section Items

variable {l : Lineage}

theorem Module.bareItem?_of_isMade {vs : List Visited} {f : Filing} (h : f.IsMade l vs) :
    Module.bareItem? l f.module f.root =
      some (f.root.block.collectionKey, f.document.withoutReferences) := by
  obtain ⟨path, hpath, hdoc⟩ := h.built
  have hbare := Block.document_outcome_withoutReferences (f.index vs)
    (some (f.root.block.path path)) f.root.block.recordedType f.root.block
  rw [hdoc] at hbare
  simp only [Module.bareItem?, hpath, ← hbare, Except.map, if_pos h.supported]

theorem Module.bareItem?_of_not_supported {m : Module} {b : RootBlock} (h : ¬b.block.IsSupported) :
    Module.bareItem? l m b = none := by
  unfold Module.bareItem?
  split
  · rfl
  · split
    · rfl
    · rw [if_neg h]

/-- The filed documents, without their references, are those that the modules give one by one. -/
theorem Filed.bareItems_eq {ms : List Module} {fs : List Filing} (h : Filed l (visits ms) fs) :
    Document.bareItems (fs.map Filing.item) = ms.flatMap (Module.bareItems l) := by
  let give (v : Visited) : Option (String × Document) := Module.bareItem? l v.module v.root
  calc Document.bareItems (fs.map Filing.item)
      = fs.map fun f => (f.root.block.collectionKey, f.document.withoutReferences) := by
        rw [Document.bareItems, List.map_map]
        rfl
    _ = fs.filterMap fun f => give f.toVisited := by
        rw [← List.filterMap_eq_map]
        exact List.filterMap_congr fun f hf => (Module.bareItem?_of_isMade (h.made f hf)).symm
    _ = (fs.map Filing.toVisited).filterMap give := by
        rw [List.filterMap_map]
        rfl
    _ = (visits ms).filterMap give := by
        rw [h.map_toVisited, List.filterMap_filter]
        refine List.filterMap_congr fun v _ => ?_
        by_cases hv : v.root.block.IsSupported
        · simp [hv]
        · simp [hv, give, Module.bareItem?_of_not_supported hv]
    _ = ms.flatMap (Module.bareItems l) := by
        rw [visits, List.filterMap_flatMap]
        refine List.flatMap_congr fun m _ => ?_
        rw [List.filterMap_map]
        rfl

theorem Module.bareItems_perm {m n : Module} (h : m.blocks.Perm n.blocks) :
    (Module.bareItems l m).Perm (Module.bareItems l n) := by
  have hitem : Module.bareItem? l m = Module.bareItem? l n := by
    funext b
    rw [Module.bareItem?, Module.bareItem?, Lineage.modulePath_eq_of_mem_iff fun _ => h.mem_iff]
  rw [Module.bareItems, Module.bareItems, hitem]
  exact h.filterMap _

end Items

-- ════════════════════════════════════════════════════════════════════════
-- Rearrangements
-- ════════════════════════════════════════════════════════════════════════

/-- The same modules in another order, with the same root blocks in another order in each. -/
def Rearranged (ms ns : List Module) : Prop :=
  ∃ ks, ms.Perm ks ∧ List.Forall₂ (fun m n => m.blocks.Perm n.blocks) ks ns

/-- The outputs have the same keys, and under each key the same documents up to their order and
their references. -/
structure SameButReferences (o o' : Collection Document) : Prop where
  keys : (Table.keys o).Perm (Table.keys o')
  documents : ∀ key ds, Table.find? o key = some ds →
    ∃ ds', Table.find? o' key = some ds' ∧
      (ds.map Document.withoutReferences).Perm (ds'.map Document.withoutReferences)

section Rearrangement

variable {l : Lineage} {ms ns : List Module}

theorem Module.isConvertible_iff_of_perm {m n : Module} (h : m.blocks.Perm n.blocks) :
    m.IsConvertible l ↔ n.IsConvertible l := by
  unfold Module.IsConvertible
  rw [Lineage.modulePath_eq_of_mem_iff fun _ => h.mem_iff]
  simp only [h.mem_iff]

theorem Rearranged.forall_isConvertible_iff (h : Rearranged ms ns) :
    (∀ m ∈ ms, m.IsConvertible l) ↔ ∀ n ∈ ns, n.IsConvertible l := by
  obtain ⟨ks, hperm, hblocks⟩ := h
  simp only [hperm.mem_iff]
  induction hblocks generalizing ms with
  | nil => rfl
  | cons hblocks _ ih =>
    rw [List.forall_mem_cons, List.forall_mem_cons, Module.isConvertible_iff_of_perm hblocks,
      ih (List.Perm.refl _)]

theorem Rearranged.bareItems_perm (h : Rearranged ms ns) :
    (ms.flatMap (Module.bareItems l)).Perm (ns.flatMap (Module.bareItems l)) := by
  obtain ⟨ks, hperm, hblocks⟩ := h
  refine (hperm.flatMap_right (Module.bareItems l)).trans ?_
  clear hperm
  induction hblocks with
  | nil => exact .nil
  | cons hblocks _ ih =>
    rw [List.flatMap_cons, List.flatMap_cons]
    exact (Module.bareItems_perm hblocks).append ih

/-- Items that are the same up to their order and their references make outputs of that kind. -/
theorem sameButReferences_ofItems {items others : List (String × Document)}
    (h : (Document.bareItems items).Perm (Document.bareItems others)) :
    SameButReferences (Collection.ofItems items) (Collection.ofItems others) where
  keys := by
    have hkeys : (items.map Prod.fst).Perm (others.map Prod.fst) := by
      have hfst := h.map Prod.fst
      rwa [Document.bareItems, Document.bareItems, List.map_map, List.map_map] at hfst
    rw [Collection.keys_ofItems, Collection.keys_ofItems]
    exact Table.eraseDups_perm hkeys
  documents key ds hds := by
    have hunder : ((Collection.under items key).map Document.withoutReferences).Perm
        ((Collection.under others key).map Document.withoutReferences) := by
      rw [← Collection.under_map, ← Collection.under_map]
      exact (h.filter _).map _
    rw [Collection.find?_ofItems] at hds
    split at hds
    · cases hds
    · next hne =>
      obtain rfl := Option.some.inj hds
      refine ⟨Collection.under others key, ?_, hunder⟩
      have hother : Collection.under others key ≠ [] := by
        intro hnil
        rw [hnil, List.map_nil, List.perm_nil, List.map_eq_nil_iff] at hunder
        exact hne hunder
      rw [Collection.find?_ofItems, if_neg hother]

end Rearrangement

/-- The order of visits has an effect on references and on the order of the output only. With the
references left out, the document of a block is that with an empty index. Conversions of the same
modules in any order, with the root blocks of each in any order, succeed both or neither, and their
outputs then have the same keys and under each key the same documents, up to the order and the
references. -/
theorem convert_rearranged (l : Lineage) :
    (∀ (index : ReferenceIndex) (path type : Option String) (b : Block),
      (b.document index path type).outcome.map Document.withoutReferences =
        (b.document [] path type).outcome) ∧
    ∀ ms ns, Rearranged ms ns →
      ((∃ output, (convert l ms).outcome = .ok output) ↔
        ∃ output, (convert l ns).outcome = .ok output) ∧
      ∀ o o', (convert l ms).outcome = .ok o → (convert l ns).outcome = .ok o' →
        SameButReferences o o' := by
  refine ⟨Block.document_outcome_withoutReferences, fun ms ns h => ⟨?_, ?_⟩⟩
  · rw [exists_convert_iff, exists_convert_iff]
    exact h.forall_isConvertible_iff
  · intro o o' ho ho'
    obtain ⟨fs, hfs, rfl⟩ := exists_filed_of_convert ho
    obtain ⟨gs, hgs, rfl⟩ := exists_filed_of_convert ho'
    refine sameButReferences_ofItems ?_
    rw [hfs.bareItems_eq, hgs.bareItems_eq]
    exact h.bareItems_perm

namespace Rearrangement

/-- A block on four lines of a file. -/
def block (type : String) (labels : List String) (attributes : List Attribute) : Block where
  type := type
  labels := labels
  attributes := attributes
  range := ⟨"main.tf", 5, 8, by decide⟩

def size : RootBlock :=
  ⟨0, block "variable" ["size"] []⟩

/-- A resource that refers to the variable. -/
def disk : RootBlock :=
  ⟨1, block "resource" ["disk", "a"]
    [{ name := "size", raw := "var.size", references := ["var.size"] }]⟩

def call : RootBlock := ⟨2, block "module" ["m"] []⟩

def spare : RootBlock := ⟨3, block "resource" ["disk", "b"] []⟩

/-- The other module is below the call. -/
def lineage : Lineage := [(3, call)]

/-- Visited in one order, the resource finds the variable; in the other one it does not. -/
theorem convert_rearranged_disk :
    Rearranged [⟨[size, disk, call]⟩, ⟨[spare]⟩] [⟨[spare]⟩, ⟨[disk, size, call]⟩] ∧
      ∃ o o', (convert lineage [⟨[size, disk, call]⟩, ⟨[spare]⟩]).outcome = .ok o ∧
        (convert lineage [⟨[spare]⟩, ⟨[disk, size, call]⟩]).outcome = .ok o' ∧
        SameButReferences o o' ∧ Table.keys o = ["variable", "disk", "module"] ∧
        Table.keys o' = ["disk", "variable", "module"] := by
  have h : Rearranged [⟨[size, disk, call]⟩, ⟨[spare]⟩] [⟨[spare]⟩, ⟨[disk, size, call]⟩] :=
    ⟨[⟨[spare]⟩, ⟨[size, disk, call]⟩], .swap _ _ _,
      .cons (.refl _) (.cons (.swap _ _ _) .nil)⟩
  have hok : (convert lineage [⟨[size, disk, call]⟩, ⟨[spare]⟩]).outcome.map Table.keys =
      .ok ["variable", "disk", "module"] := by decide +kernel
  have hok' : (convert lineage [⟨[spare]⟩, ⟨[disk, size, call]⟩]).outcome.map Table.keys =
      .ok ["disk", "variable", "module"] := by decide +kernel
  cases ho : (convert lineage [⟨[size, disk, call]⟩, ⟨[spare]⟩]).outcome with
  | error e =>
    rw [ho] at hok
    cases hok
  | ok o =>
    obtain ⟨hboth, hsame⟩ := (convert_rearranged lineage).2 _ _ h
    obtain ⟨o', ho'⟩ := hboth.mp ⟨o, ho⟩
    rw [ho] at hok
    rw [ho'] at hok'
    exact ⟨h, o, o', rfl, ho', hsame o o' ho ho', Except.ok.inj hok, Except.ok.inj hok'⟩

end Rearrangement

end BlockDoc
