import BlockDoc.Proofs.Table
import BlockDoc.Tree.Importer

/-!
# Loads with other keys

What a load does is decided by the file and the options: an importer that has failed before does
what a new one does, with the keys of its blocks counted on, and adds the entries for them to those
that its lineage has already.

## Main definitions

* `RootBlock.shift`, `Module.shift`, `Lineage.shift` — blocks and entries with keys counted on
* `TreeImporter.renew` — a new importer of the same file
* `TreeImporter.resume` — an importer after it has done what a new one has done
-/

namespace BlockDoc

/-- The block with its key counted on by `n`. -/
def RootBlock.shift (n : Nat) (b : RootBlock) : RootBlock :=
  ⟨b.key + n, b.block⟩

/-- The module with the keys of its blocks counted on by `n`. -/
def Module.shift (n : Nat) (m : Module) : Module :=
  ⟨m.blocks.map (RootBlock.shift n)⟩

/-- The lineage of blocks whose keys have been counted on by `n`. -/
def Lineage.shift (n : Nat) (l : Lineage) : Lineage :=
  l.map fun e => (e.1 + n, e.2.shift n)

/-- All entries are under keys lower than `n`. -/
def Lineage.IsBelow (l : Lineage) (n : Nat) : Prop :=
  ∀ key ∈ Table.keys l, key < n

@[simp]
theorem Lineage.keys_shift (n : Nat) (l : Lineage) :
    Table.keys (l.shift n) = (Table.keys l).map (· + n) := by
  simp [Lineage.shift, Table.keys, Function.comp_def]

theorem Lineage.keys_append_shift (l own : Lineage) (n : Nat) :
    Table.keys (l ++ own.shift n) = Table.keys l ++ (Table.keys own).map (· + n) := by
  rw [← Lineage.keys_shift, Table.keys, List.map_append]
  rfl

theorem Module.ofBlocks_add (first n : Nat) (bs : List Block) :
    ofBlocks (first + n) bs = (ofBlocks first bs).shift n := by
  have hzip : bs.zipIdx (first + n) = (bs.zipIdx first).map fun e => (e.1, e.2 + n) := by
    induction bs generalizing first with
    | nil => rfl
    | cons b rest ih =>
      rw [List.zipIdx_cons, List.zipIdx_cons, List.map_cons, ← ih, Nat.add_right_comm]
  rw [ofBlocks, hzip, List.map_map, Module.shift, ofBlocks, List.map_map]
  rfl

theorem Module.listOfBlocks_add (first n : Nat) (bss : List (List Block)) :
    listOfBlocks (first + n) bss = (listOfBlocks first bss).map (Module.shift n) := by
  induction bss generalizing first with
  | nil => rfl
  | cons bs rest ih =>
    rw [listOfBlocks, listOfBlocks, List.map_cons, ofBlocks_add, ← ih, Nat.add_right_comm]

-- ════════════════════════════════════════════════════════════════════════
-- Links
-- ════════════════════════════════════════════════════════════════════════

section Links

variable {l : Lineage} {n : Nat}

/-- An entry for a block with a key that has been counted on goes to the entries for such blocks. -/
theorem Lineage.put_shift (hl : l.IsBelow n) (own : Lineage) (key : Nat) (parent : RootBlock) :
    Table.put (l ++ own.shift n) (key + n) (parent.shift n) =
      l ++ Lineage.shift n (Table.put own key parent) := by
  induction l with
  | nil =>
    rw [List.nil_append, List.nil_append]
    induction own with
    | nil => rfl
    | cons e rest ih =>
      obtain ⟨k, v⟩ := e
      by_cases hk : k = key
      · simp [Lineage.shift, Table.put, hk]
      · simpa [Lineage.shift, Table.put, hk] using ih
  | cons e rest ih =>
    obtain ⟨k, v⟩ := e
    obtain ⟨hk, hrest⟩ := List.forall_mem_cons.mp hl
    have hne : (k == key + n) = false := by
      rw [beq_eq_false_iff_ne]
      omega
    rw [List.cons_append, Table.put, hne, ih hrest]
    rfl

theorem Lineage.register_shift (hl : l.IsBelow n) (own : Lineage) (b parent : RootBlock) :
    Lineage.register (l ++ own.shift n) (b.shift n) (parent.shift n) =
      (own.register b parent).map fun u => l ++ u.shift n := by
  have htype : (parent.shift n).block.type = parent.block.type := rfl
  unfold Lineage.register
  rw [htype]
  split
  · exact congrArg Except.ok (put_shift hl own b.key parent)
  · rfl

theorem Lineage.registerModule_shift (hl : l.IsBelow n) (own : Lineage) (m : Module)
    (parent : RootBlock) :
    Lineage.registerModule (l ++ own.shift n) (m.shift n) (parent.shift n) =
      (own.registerModule m parent).map fun u => l ++ u.shift n := by
  obtain ⟨bs⟩ := m
  unfold Lineage.registerModule Module.shift
  induction bs generalizing own with
  | nil => rfl
  | cons b rest ih =>
    rw [List.map_cons, List.foldlM_cons, List.foldlM_cons, register_shift hl]
    cases own.register b parent with
    | error e => rfl
    | ok u => exact ih u

theorem findModuleBlock_shift (n : Nat) (modules : List Module) (parent : ParentRef) :
    findModuleBlock (modules.map (Module.shift n)) parent =
      (findModuleBlock modules parent).map (RootBlock.shift n) := by
  unfold findModuleBlock
  rw [List.getElem?_map]
  cases modules[parent.module]? with
  | none => rfl
  | some m =>
    simp only [Option.map_some, Module.shift, List.find?_map]
    have hsame : ((fun b : RootBlock =>
        b.block.type = Block.moduleType && b.reference = parent.block) ∘ RootBlock.shift n) =
        fun b => b.block.type = Block.moduleType && b.reference = parent.block := rfl
    rw [hsame]
    cases m.blocks.find? fun b =>
        b.block.type = Block.moduleType && b.reference = parent.block with
    | none => rfl
    | some b => rfl

theorem linkParents_shift (hl : l.IsBelow n) (modules : List Module) (own : Lineage)
    (parents : List (Nat × ParentRef)) :
    linkParents (modules.map (Module.shift n)) (l ++ own.shift n) parents =
      ((linkParents modules own parents).1, l ++ (linkParents modules own parents).2.shift n) := by
  induction parents generalizing own with
  | nil => rfl
  | cons e rest ih =>
    obtain ⟨position, parent⟩ := e
    have hmodule : ((modules.map (Module.shift n))[position]?).getD ⟨[]⟩ =
        ((modules[position]?).getD ⟨[]⟩).shift n := by
      rw [List.getElem?_map]
      cases modules[position]? with
      | none => rfl
      | some m => rfl
    unfold linkParents
    rw [findModuleBlock_shift, hmodule]
    cases findModuleBlock modules parent with
    | error e => rfl
    | ok b =>
      dsimp only [Except.map]
      rw [Lineage.registerModule_shift hl]
      cases own.registerModule ((modules[position]?).getD ⟨[]⟩) b with
      | error e => rfl
      | ok u => exact ih u

end Links

-- ════════════════════════════════════════════════════════════════════════
-- Loads
-- ════════════════════════════════════════════════════════════════════════

namespace TreeImporter

/-- A new importer of the same file with the same options. -/
def renew (t : TreeImporter) : TreeImporter where
  path := t.path
  options := t.options

/-- The importer after it has done what has made a new importer of the same file into `v`. -/
def resume (t v : TreeImporter) : TreeImporter where
  path := t.path
  options := t.options
  modules := v.modules.map (List.map (Module.shift t.nextKey))
  lineage := t.lineage ++ v.lineage.shift t.nextKey
  nextKey := t.nextKey + v.nextKey

/-- What a load by a new importer comes to if it is done by `t`. -/
def relocate {ε : Type} (t : TreeImporter) (r : Except ε (List Module) × TreeImporter) :
    Except ε (List Module) × TreeImporter :=
  (r.1.map (List.map (Module.shift t.nextKey)), t.resume r.2)

section Loads

variable {t : TreeImporter}

/-- An importer that has not loaded its file, whose lineage has no entries for blocks to come. -/
structure IsWaiting (t : TreeImporter) : Prop where
  modules : t.modules = none
  lineage : t.lineage.IsBelow t.nextKey

theorem IsWaiting.resume_renew (h : t.IsWaiting) : t.resume t.renew = t := by
  obtain ⟨path, options, modules, lineage, nextKey⟩ := t
  obtain rfl : modules = none := h.modules
  simp [resume, renew, Lineage.shift]

theorem IsWaiting.relocate_error {ε : Type} (h : t.IsWaiting) (e : ε) :
    t.relocate (.error e, t.renew) = (.error e, t) := by
  rw [relocate, h.resume_renew]
  rfl

theorem IsWaiting.link_result (h : t.IsWaiting) (list : ModuleList) :
    (t.link list).result = t.relocate (t.renew.link list).result := by
  have hmodules : Module.listOfBlocks t.nextKey list.blocks =
      (Module.listOfBlocks 0 list.blocks).map (Module.shift t.nextKey) := by
    rw [← Module.listOfBlocks_add, Nat.zero_add]
  have hlinked := linkParents_shift h.lineage (Module.listOfBlocks 0 list.blocks) []
    list.parents
  rw [← hmodules] at hlinked
  have hnil : t.lineage ++ Lineage.shift t.nextKey [] = t.lineage := List.append_nil _
  rw [hnil] at hlinked
  unfold link
  simp only [hlinked, renew]
  rcases linkParents (Module.listOfBlocks 0 list.blocks) [] list.parents with ⟨e | u, own⟩
  · have hnone := h.modules
    simp [relocate, resume, hnone, Except.map]
  · simp [relocate, resume, hmodules, Except.map]

theorem IsWaiting.loadModules_result (h : t.IsWaiting) (entries : List (Datum × Datum)) :
    (t.loadModules entries).result = t.relocate (t.renew.loadModules entries).result := by
  unfold loadModules
  split
  · exact (h.relocate_error _).symm
  · split
    · exact (h.relocate_error _).symm
    · exact h.link_result _

theorem IsWaiting.loadEntries_result (h : t.IsWaiting) (entries : List (Datum × Datum)) :
    (t.loadEntries entries).result = t.relocate (t.renew.loadEntries entries).result := by
  have hoptions : t.renew.options = t.options := rfl
  unfold loadEntries
  split
  · exact (h.relocate_error _).symm
  · rw [Journaled.bind_result, Journaled.bind_result, hoptions]
    split
    · exact (h.relocate_error _).symm
    · exact h.loadModules_result entries

/-- An importer that is waiting does what a new importer of the same file does. -/
theorem IsWaiting.get_result (h : t.IsWaiting) (host : Host) (files : FileTree) :
    (t.get host files).result = t.relocate (t.renew.get host files).result := by
  have hpath : t.renew.path = t.path := rfl
  unfold get
  rw [h.modules]
  show (t.load host files).result = t.relocate (t.renew.load host files).result
  unfold load
  rw [hpath]
  split
  · exact (h.relocate_error _).symm
  · exact h.loadEntries_result _

end Loads

end TreeImporter

end BlockDoc
