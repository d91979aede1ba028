import BlockDoc.Proofs.Lineage.Register
import BlockDoc.Tree.Importer
import Mathlib.Data.List.Nodup

/-!
# What a load leaves behind

A load that succeeds gives one module for each item of the tree, whose blocks have keys that no
other block has. It links the blocks of the modules with a parent to the module block that the
parent names. Since each module has at most one entry among the parents and the keys are apart, no
link overwrites another one.

## Main definitions

* `parentAt?` — the parent that the item at a position of a tree names
* `moduleBlockAt?` — the module block that a parent names
* `Module.keys` — the keys of the blocks of modules
* `TreeImporter.Loads` — the stages of a load that succeeds
-/

namespace BlockDoc

/-- The parent that the item at a position of a tree names. -/
def parentAt? (items : List Datum) (position : Nat) : Option ParentRef :=
  match items[position]? with
  | some (.map entries) => (checkParent entries).toOption.join
  | _ => none

/-- The module block that a parent names: in the module at its position, the first one with its
address. -/
def moduleBlockAt? (modules : List Module) (parent : ParentRef) : Option RootBlock :=
  modules[parent.module]?.bind fun m =>
    m.blocks.find? fun b => b.block.type = Block.moduleType && b.reference = parent.block

/-- A step that uses the result of another one succeeds only if both do. -/
theorem exists_of_bind_eq_ok {ε α β : Type} {x : Except ε α} {f : α → Except ε β} {b : β}
    (h : x >>= f = .ok b) : ∃ a, x = .ok a ∧ f a = .ok b := by
  cases x with
  | error e => cases h
  | ok a => exact ⟨a, rfl, h⟩

-- ════════════════════════════════════════════════════════════════════════
-- Items
-- ════════════════════════════════════════════════════════════════════════

@[simp]
theorem parentAt?_cons_zero (entries : List (Datum × Datum)) (items : List Datum) :
    parentAt? (.map entries :: items) 0 = (checkParent entries).toOption.join := rfl

@[simp]
theorem parentAt?_cons_succ (item : Datum) (items : List Datum) (p : Nat) :
    parentAt? (item :: items) (p + 1) = parentAt? items p := rfl

/-- The modules of items, with the first one added. -/
def ModuleList.cons (position : Nat) (blocks : List Block) (parent : Option ParentRef)
    (others : ModuleList) : ModuleList :=
  ⟨blocks :: others.blocks,
    match parent with
    | none => others.parents
    | some p => (position, p) :: others.parents⟩

section Items

variable {items : List Datum} {position : Nat} {list : ModuleList}

theorem checkModuleItems_cons_eq_ok {item : Datum}
    (h : checkModuleItems position (item :: items) = .ok list) :
    ∃ entries parent blocks others, item = .map entries ∧ checkParent entries = .ok parent ∧
      checkBlocks entries = .ok blocks ∧ checkModuleItems (position + 1) items = .ok others ∧
      list = others.cons position blocks parent := by
  cases item with
  | map entries =>
    obtain ⟨parent, hparent, h⟩ := exists_of_bind_eq_ok h
    obtain ⟨blocks, hblocks, h⟩ := exists_of_bind_eq_ok h
    obtain ⟨others, hothers, h⟩ := exists_of_bind_eq_ok h
    exact ⟨entries, parent, blocks, others, rfl, hparent, hblocks, hothers,
      (Except.ok.inj h).symm⟩
  | _ => cases h

/-- The blocks of a module are those of the item at its position. -/
theorem getElem?_blocks_of_checkModuleItems (h : checkModuleItems position items = .ok list)
    (p : Nat) (bs : List Block) :
    list.blocks[p]? = some bs ↔
      ∃ entries, items[p]? = some (.map entries) ∧ checkBlocks entries = .ok bs := by
  induction items generalizing position list p with
  | nil =>
    cases h
    simp
  | cons item rest ih =>
    obtain ⟨entries, parent, blocks, others, rfl, -, hblocks, hothers, rfl⟩ :=
      checkModuleItems_cons_eq_ok h
    cases p with
    | zero => simp [ModuleList.cons, hblocks]
    | succ p => simpa [ModuleList.cons] using ih hothers p

theorem length_blocks_of_checkModuleItems (h : checkModuleItems position items = .ok list) :
    list.blocks.length = items.length := by
  induction items generalizing position list with
  | nil =>
    cases h
    rfl
  | cons item rest ih =>
    obtain ⟨entries, parent, blocks, others, rfl, -, -, hothers, rfl⟩ :=
      checkModuleItems_cons_eq_ok h
    exact congrArg (· + 1) (ih hothers)

/-- The parent of a module is that of the item at its position. -/
theorem find?_parents_of_checkModuleItems (h : checkModuleItems position items = .ok list)
    (q : Nat) :
    Table.find? list.parents q = if q < position then none else parentAt? items (q - position) := by
  induction items generalizing position list with
  | nil =>
    cases h
    simp [parentAt?]
  | cons item rest ih =>
    obtain ⟨entries, parent, blocks, others, rfl, hparent, -, hothers, rfl⟩ :=
      checkModuleItems_cons_eq_ok h
    have hon := ih hothers
    rcases Nat.lt_trichotomy q position with hlt | rfl | hgt
    · have hne : (position == q) = false := by simpa using Nat.ne_of_gt hlt
      rw [if_pos hlt]
      rw [if_pos (by omega)] at hon
      cases parent <;> simpa [ModuleList.cons, Table.find?, hne] using hon
    · rw [if_neg (Nat.lt_irrefl q), Nat.sub_self, parentAt?_cons_zero, hparent]
      rw [if_pos (Nat.lt_succ_self q)] at hon
      cases parent with
      | none => exact hon
      | some p => simp [ModuleList.cons, Table.find?, Except.toOption]
    · obtain ⟨d, rfl⟩ := Nat.exists_eq_add_of_lt hgt
      have hne : (position == position + d + 1) = false := by simp [Nat.add_assoc]
      have hsub : position + d + 1 - position = d + 1 := by omega
      have hsub' : position + d + 1 - (position + 1) = d := by omega
      rw [if_neg (by omega), hsub, parentAt?_cons_succ]
      rw [if_neg (by omega), hsub'] at hon
      cases parent <;> simpa [ModuleList.cons, Table.find?, hne] using hon

/-- The parent of an item is found to be in order, or to be absent. -/
theorem checkParent_of_checkModuleItems (h : checkModuleItems position items = .ok list) {p : Nat}
    {entries : List (Datum × Datum)} (hp : items[p]? = some (.map entries)) :
    checkParent entries = .ok (parentAt? items p) := by
  induction items generalizing position list p with
  | nil => cases hp
  | cons item rest ih =>
    obtain ⟨es, parent, blocks, others, rfl, hparent, -, hothers, rfl⟩ :=
      checkModuleItems_cons_eq_ok h
    cases p with
    | zero =>
      obtain rfl : es = entries := Datum.map.inj (Option.some.inj hp)
      rw [parentAt?_cons_zero, hparent]
      rfl
    | succ p => exact ih hothers hp

/-- The positions of the modules with a parent stand in order. -/
theorem keys_parents_sublist (h : checkModuleItems position items = .ok list) :
    (Table.keys list.parents).Sublist (List.range' position items.length) := by
  induction items generalizing position list with
  | nil =>
    cases h
    exact List.Sublist.refl []
  | cons item rest ih =>
    obtain ⟨entries, parent, blocks, others, rfl, -, -, hothers, rfl⟩ :=
      checkModuleItems_cons_eq_ok h
    rw [List.length_cons, List.range'_succ]
    cases parent with
    | none => exact (ih hothers).cons position
    | some p => exact (ih hothers).cons_cons position

end Items

-- ════════════════════════════════════════════════════════════════════════
-- Keys
-- ════════════════════════════════════════════════════════════════════════

namespace Module

/-- The keys of the blocks of modules. -/
def keys (ms : List Module) : List Nat :=
  ms.flatMap fun m => m.blocks.map RootBlock.key

theorem map_key_ofBlocks (first : Nat) (bs : List Block) :
    (ofBlocks first bs).blocks.map RootBlock.key = List.range' first bs.length := by
  rw [ofBlocks, List.map_map]
  exact List.zipIdx_map_snd first bs

/-- The blocks of modules are numbered from the first key on. -/
theorem keys_listOfBlocks (first : Nat) (bss : List (List Block)) :
    keys (listOfBlocks first bss) = List.range' first (countBlocks bss) := by
  induction bss generalizing first with
  | nil => rfl
  | cons bs rest ih =>
    calc keys (listOfBlocks first (bs :: rest))
        = (ofBlocks first bs).blocks.map RootBlock.key ++
            keys (listOfBlocks (first + bs.length) rest) := rfl
      _ = List.range' first bs.length ++
            List.range' (first + bs.length) (countBlocks rest) := by
          rw [map_key_ofBlocks, ih]
      _ = List.range' first (countBlocks (bs :: rest)) := by
          rw [List.range'_append_1]
          rfl

theorem length_listOfBlocks (first : Nat) (bss : List (List Block)) :
    (listOfBlocks first bss).length = bss.length := by
  induction bss generalizing first with
  | nil => rfl
  | cons bs rest ih => exact congrArg (· + 1) (ih (first + bs.length))

theorem getElem?_listOfBlocks (first : Nat) (bss : List (List Block)) (p : Nat) :
    (listOfBlocks first bss)[p]?.map (fun m => m.blocks.map RootBlock.block) = bss[p]? := by
  induction bss generalizing first p with
  | nil => rfl
  | cons bs rest ih =>
    cases p with
    | zero =>
      have hblocks : (ofBlocks first bs).blocks.map RootBlock.block = bs := by
        rw [ofBlocks, List.map_map]
        exact List.zipIdx_map_fst first bs
      exact congrArg some hblocks
    | succ p => exact ih (first + bs.length) p

/-- Blocks of different modules have different keys if all keys differ. -/
theorem eq_of_key_mem {ms : List Module} (h : (keys ms).Nodup) {p q key : Nat} {m n : Module}
    (hp : ms[p]? = some m) (hq : ms[q]? = some n) (hm : key ∈ m.blocks.map RootBlock.key)
    (hn : key ∈ n.blocks.map RootBlock.key) : p = q := by
  have hdisjoint := (List.nodup_flatMap.mp h).2
  obtain ⟨hplt, rfl⟩ := List.getElem?_eq_some_iff.mp hp
  obtain ⟨hqlt, rfl⟩ := List.getElem?_eq_some_iff.mp hq
  rcases Nat.lt_trichotomy p q with hlt | rfl | hgt
  · exact absurd hn (List.pairwise_iff_getElem.mp hdisjoint p q hplt hqlt hlt hm)
  · rfl
  · exact absurd hm (List.pairwise_iff_getElem.mp hdisjoint q p hqlt hplt hgt hn)

end Module

-- ════════════════════════════════════════════════════════════════════════
-- Links
-- ════════════════════════════════════════════════════════════════════════

theorem findModuleBlock_eq_ok {modules : List Module} {parent : ParentRef} {b : RootBlock} :
    findModuleBlock modules parent = .ok b ↔ moduleBlockAt? modules parent = some b := by
  unfold findModuleBlock moduleBlockAt?
  cases modules[parent.module]? with
  | none => simp
  | some m =>
    cases hfind : m.blocks.find? fun b =>
        b.block.type = Block.moduleType && b.reference = parent.block with
    | none => simp [hfind]
    | some c => simp [hfind]

/-- A module block that a parent names is one of the module at the position in it. -/
theorem exists_of_moduleBlockAt? {modules : List Module} {parent : ParentRef} {b : RootBlock}
    (h : moduleBlockAt? modules parent = some b) :
    b.block.type = Block.moduleType ∧ ∃ m, modules[parent.module]? = some m ∧ b ∈ m.blocks := by
  obtain ⟨m, hm, hfind⟩ := Option.bind_eq_some_iff.mp h
  have htest := List.find?_some hfind
  rw [Bool.and_eq_true, decide_eq_true_iff] at htest
  exact ⟨htest.1, m, hm, List.mem_of_find?_eq_some hfind⟩

section Links

variable {modules : List Module} {l l' : Lineage}

theorem linkParents_cons_eq_ok {position : Nat} {parent : ParentRef}
    {rest : List (Nat × ParentRef)}
    (h : linkParents modules l ((position, parent) :: rest) = (.ok (), l')) :
    ∃ b u, moduleBlockAt? modules parent = some b ∧
      l.registerModule ((modules[position]?).getD ⟨[]⟩) b = .ok u ∧
      linkParents modules u rest = (.ok (), l') := by
  unfold linkParents at h
  cases hfind : findModuleBlock modules parent with
  | error e =>
    rw [hfind] at h
    cases h
  | ok b =>
    rw [hfind] at h
    dsimp only at h
    cases hreg : l.registerModule ((modules[position]?).getD ⟨[]⟩) b with
    | error e =>
      rw [hreg] at h
      cases h
    | ok u =>
      rw [hreg] at h
      exact ⟨b, u, findModuleBlock_eq_ok.mp hfind, hreg, h⟩

/-- If the parents can be linked, each one names a module block. -/
theorem isSome_moduleBlockAt?_of_linkParents {parents : ParentTable}
    (h : linkParents modules l parents = (.ok (), l')) {e : Nat × ParentRef} (he : e ∈ parents) :
    (moduleBlockAt? modules e.2).isSome := by
  induction parents generalizing l with
  | nil => cases he
  | cons d rest ih =>
    obtain ⟨position, parent⟩ := d
    obtain ⟨b, u, hb, -, hrest⟩ := linkParents_cons_eq_ok h
    rcases List.mem_cons.mp he with rfl | he
    · exact Option.isSome_of_mem hb
    · exact ih hrest he

/-- The blocks of a module with a parent are linked to the module block that it names, and nothing
changes for the blocks of the other modules. -/
theorem find?_linkParents (hkeys : (Module.keys modules).Nodup) {parents : ParentTable}
    (hparents : (Table.keys parents).Nodup) (h : linkParents modules l parents = (.ok (), l'))
    {p key : Nat} {m : Module} (hp : modules[p]? = some m)
    (hkey : key ∈ m.blocks.map RootBlock.key) :
    Table.find? l' key =
      match Table.find? parents p with
      | none => Table.find? l key
      | some parent => moduleBlockAt? modules parent := by
  induction parents generalizing l with
  | nil =>
    obtain ⟨-, rfl⟩ := Prod.mk.inj h
    rfl
  | cons d rest ih =>
    obtain ⟨position, parent⟩ := d
    obtain ⟨b, u, hb, hreg, hrest⟩ := linkParents_cons_eq_ok h
    obtain ⟨hfresh, hnodup⟩ := List.nodup_cons.mp hparents
    rw [ih hnodup hrest]
    by_cases hpos : position = p
    -- The first entry is that of the module, and no later one is.
    · subst hpos
      have hnone : Table.find? rest position = none := by
        cases hfind : Table.find? rest position with
        | none => rfl
        | some r =>
          have hmem : position ∈ Table.keys rest :=
            List.mem_map.mpr ⟨_, Table.mem_of_find? hfind, rfl⟩
          exact absurd hmem hfresh
      rw [hp, Option.getD_some] at hreg
      rw [hnone, Lineage.find?_registerModule hreg, if_pos hkey]
      simp [Table.find?, hb]
    -- The first entry is that of another module, whose blocks have other keys.
    · have hother : key ∉ ((modules[position]?).getD ⟨[]⟩).blocks.map RootBlock.key := by
        intro hmem
        cases hq : modules[position]? with
        | none => simp [hq] at hmem
        | some n =>
          rw [hq, Option.getD_some] at hmem
          exact hpos (Module.eq_of_key_mem hkeys hq hp hmem hkey)
      have hne : (position == p) = false := by simpa using hpos
      simp only [Lineage.find?_registerModule hreg, if_neg hother, Table.find?, hne,
        Bool.false_eq_true, if_false]

end Links

-- ════════════════════════════════════════════════════════════════════════
-- Stages
-- ════════════════════════════════════════════════════════════════════════

namespace TreeImporter

/-- The stages of a load that succeeds: the mapping is read, its modules are checked, their parents
run in no cycle, the blocks get keys, and the parents are linked. -/
structure Loads (t : TreeImporter) (host : Host) (files : FileTree)
    (entries : List (Datum × Datum)) (items : List Datum) (list : ModuleList)
    (modules : List Module) (t' : TreeImporter) : Prop where
  read : readTree host files t.path = .ok entries
  member : Datum.member? entries "modules" = some (.list items)
  checked : checkModuleItems 0 items = .ok list
  acyclic : ParentTable.cycle? list.parents = none
  numbered : modules = Module.listOfBlocks t.nextKey list.blocks
  linked : linkParents modules t.lineage list.parents = (.ok (), t'.lineage)

section Stages

variable {t t' : TreeImporter} {host : Host} {files : FileTree} {entries : List (Datum × Datum)}
  {modules : List Module}

theorem link_eq_ok {list : ModuleList} (h : (t.link list).result = (.ok modules, t')) :
    modules = Module.listOfBlocks t.nextKey list.blocks ∧
      linkParents modules t.lineage list.parents = (.ok (), t'.lineage) := by
  unfold link at h
  rcases hlink : linkParents (Module.listOfBlocks t.nextKey list.blocks) t.lineage list.parents
    with ⟨outcome, l⟩
  simp only [hlink] at h
  cases outcome with
  | error e => cases h
  | ok u =>
    cases h
    exact ⟨rfl, hlink⟩

theorem checkModules_eq_ok {list : ModuleList} (h : checkModules entries = .ok list) :
    ∃ items, Datum.member? entries "modules" = some (.list items) ∧
      checkModuleItems 0 items = .ok list := by
  unfold checkModules at h
  split at h
  · next items hitems => exact ⟨items, hitems, h⟩
  · cases h

theorem loadModules_eq_ok (h : (t.loadModules entries).result = (.ok modules, t')) :
    ∃ list, checkModules entries = .ok list ∧ ParentTable.cycle? list.parents = none ∧
      (t.link list).result = (.ok modules, t') := by
  unfold loadModules at h
  cases hcheck : checkModules entries with
  | error e =>
    rw [hcheck] at h
    cases h
  | ok list =>
    simp only [hcheck] at h
    cases hcycle : ParentTable.cycle? list.parents with
    | some way =>
      rw [hcycle] at h
      cases h
    | none =>
      rw [hcycle] at h
      exact ⟨list, rfl, hcycle, h⟩

/-- The diagnostics of a tree may end a load, and have no part in what it gives. -/
theorem loadEntries_eq_ok (h : (t.loadEntries entries).result = (.ok modules, t')) :
    (t.loadModules entries).result = (.ok modules, t') := by
  unfold loadEntries at h
  cases hdiagnostics : checkDiagnostics entries with
  | error e =>
    rw [hdiagnostics] at h
    cases h
  | ok ds =>
    simp only [hdiagnostics, Journaled.bind_result] at h
    cases hrefuse : refuseErrors t.options ds with
    | error e =>
      rw [hrefuse] at h
      cases h
    | ok u =>
      rw [hrefuse] at h
      exact h

theorem load_eq_ok (h : (t.load host files).result = (.ok modules, t')) :
    ∃ entries, readTree host files t.path = .ok entries ∧
      (t.loadEntries entries).result = (.ok modules, t') := by
  unfold load at h
  cases hread : readTree host files t.path with
  | error e =>
    rw [hread] at h
    cases h
  | ok entries =>
    rw [hread] at h
    exact ⟨entries, rfl, h⟩

/-- A load that succeeds has gone through all stages. -/
theorem exists_loads_of_load (h : (t.load host files).result = (.ok modules, t')) :
    ∃ entries items list, t.Loads host files entries items list modules t' := by
  obtain ⟨entries, hread, hentries⟩ := load_eq_ok h
  obtain ⟨list, hcheck, hcycle, hlink⟩ := loadModules_eq_ok (loadEntries_eq_ok hentries)
  obtain ⟨items, hmember, hitems⟩ := checkModules_eq_ok hcheck
  obtain ⟨hmodules, hlinked⟩ := link_eq_ok hlink
  exact ⟨entries, items, list, hread, hmember, hitems, hcycle, hmodules, hlinked⟩

end Stages

end TreeImporter

end BlockDoc
