import BlockDoc.Proofs.Tree.Lineage
import BlockDoc.Proofs.Tree.Outcomes
import BlockDoc.Proofs.Tree.Relocation

/-!
# Loads after failed loads

An importer whose load has failed loads its file again when it is asked for its modules, or for its
lineage, again. A load that fails while the parents are linked leaves the entries that it has made
in the lineage, and the lineage outlives the load. So after a load that succeeds at last, the
lineage has the entries that a new importer would have made, and in front of them those that failed
loads have left behind. They are entries of blocks that no module has, and there are none if no load
has failed over a parent that leads nowhere.

## Main definitions

* `TreeImporter.asks` — what an importer gives each time it is asked for its modules
* `Lineage.HoldsExactly` — the lineages that hold nothing but the blocks of modules with a parent
* `TreeImporter.LoadsAtLast` — what the lineage holds after failed loads

## Main results

* `TreeImporter.exists_loadsAtLast` — what the lineage holds whenever the modules are given
* `TreeImporter.Dangling.not_forall_holdsExactly` — a lineage with an entry left behind
-/

namespace BlockDoc

/-- A lineage holds one entry for each root block of the modules with a parent, and no others. -/
structure Lineage.HoldsExactly (l : Lineage) (items : List Datum) (modules : List Module) :
    Prop where
  once : (Table.keys l).Nodup
  mem_iff : ∀ key, key ∈ Table.keys l ↔ ∃ (p : Nat) (m : Module), modules[p]? = some m ∧
    (parentAt? items p).isSome = true ∧ key ∈ m.blocks.map RootBlock.key

-- ════════════════════════════════════════════════════════════════════════
-- Links
-- ════════════════════════════════════════════════════════════════════════

section Links

variable {P : Lineage → Prop} {modules : List Module}

theorem Lineage.registerModule_induction {m : Module} {parent : RootBlock}
    (hput : ∀ l, P l → ∀ b ∈ m.blocks, P (Table.put l b.key parent)) {l u : Lineage} (hl : P l)
    (h : l.registerModule m parent = .ok u) : P u := by
  obtain ⟨-, rfl⟩ := registerModule_eq_ok h
  refine List.foldlRecOn _ _ hl fun k hk e he => ?_
  obtain ⟨b, hb, rfl⟩ := List.mem_map.mp he
  exact hput k hk b hb

/-- What every entry for a block of the modules keeps, linking the parents keeps, done or not. -/
theorem linkParents_induction
    (hput : ∀ l, P l → ∀ m ∈ modules, ∀ b ∈ m.blocks, ∀ parent, P (Table.put l b.key parent))
    {l : Lineage} (hl : P l) (parents : List (Nat × ParentRef)) :
    P (linkParents modules l parents).2 := by
  induction parents generalizing l with
  | nil => exact hl
  | cons e rest ih =>
    obtain ⟨position, parent⟩ := e
    unfold linkParents
    split
    · exact hl
    · next b _ =>
      split
      · next u hu =>
        apply ih
        refine Lineage.registerModule_induction ?_ hl hu
        intro k hk c hc
        cases hm : modules[position]? with
        | none => simp [hm] at hc
        | some m =>
          rw [hm, Option.getD_some] at hc
          exact hput k hk m (List.mem_of_getElem? hm) c hc b
      · exact hl

theorem nodup_keys_linkParents (modules : List Module) (parents : List (Nat × ParentRef)) :
    (Table.keys (linkParents modules [] parents).2).Nodup := by
  have hnil : (Table.keys ([] : Lineage)).Nodup := List.nodup_nil
  refine linkParents_induction (P := fun l => (Table.keys l).Nodup) ?_ hnil parents
  intro l hl m _ b _ parent
  rw [Table.keys_put]
  split
  · exact hl
  · next hnew =>
    refine List.nodup_append.mpr ⟨hl, List.nodup_singleton _, ?_⟩
    intro key hkey other hother
    obtain rfl := List.mem_singleton.mp hother
    rintro rfl
    exact hnew hkey

theorem mem_keys_of_linkParents {parents : List (Nat × ParentRef)} :
    ∀ key ∈ Table.keys (linkParents modules [] parents).2, key ∈ Module.keys modules := by
  refine linkParents_induction (P := fun l => ∀ key ∈ Table.keys l, key ∈ Module.keys modules) ?_
    (by simp [Table.keys]) parents
  intro l hl m hm b hb parent key hkey
  rw [Table.keys_put] at hkey
  split at hkey
  · exact hl key hkey
  · rcases List.mem_append.mp hkey with hkey | hkey
    · exact hl key hkey
    · obtain rfl := List.mem_singleton.mp hkey
      exact List.mem_flatMap.mpr ⟨m, hm, List.mem_map_of_mem hb⟩

end Links

-- ════════════════════════════════════════════════════════════════════════
-- One load
-- ════════════════════════════════════════════════════════════════════════

/-- The lineage of blocks whose keys have been counted on holds the same blocks. -/
theorem Lineage.HoldsExactly.shift {l : Lineage} {items : List Datum} {modules : List Module}
    (h : l.HoldsExactly items modules) (n : Nat) :
    (l.shift n).HoldsExactly items (modules.map (Module.shift n)) := by
  constructor
  · rw [Lineage.keys_shift]
    exact h.once.map fun a b hab => Nat.add_right_cancel hab
  · intro key
    simp only [Lineage.keys_shift, List.mem_map, List.getElem?_map, Option.map_eq_some_iff,
      h.mem_iff]
    constructor
    · rintro ⟨k, ⟨p, m, hm, hparent, b, hb, rfl⟩, rfl⟩
      exact ⟨p, m.shift n, ⟨m, hm, rfl⟩, hparent, b.shift n, List.mem_map_of_mem hb, rfl⟩
    · rintro ⟨p, _, ⟨m, hm, rfl⟩, hparent, c, hc, rfl⟩
      obtain ⟨b, hb, rfl⟩ := List.mem_map.mp hc
      exact ⟨b.key, ⟨p, m, hm, hparent, b, hb, rfl⟩, rfl⟩

namespace TreeImporter

section Load

variable {t t' : TreeImporter} {host : Host} {files : FileTree} {modules : List Module}

/-- A new importer whose load fails has no entries for blocks to come, and none at all unless a
parent leads nowhere. -/
theorem renew_get_eq_error {f : LoadFault} (h : (t.renew.get host files).result = (.error f, t')) :
    t'.IsWaiting ∧ (¬f.IsDangling → t'.lineage = []) := by
  have hnew : t.renew.modules = none := rfl
  rcases get_cases hnew host files with ⟨g, hg⟩ | ⟨list, g, hg, hdangling⟩ | ⟨list, ms, hms⟩
  · rw [hg] at h
    obtain ⟨-, rfl⟩ := Prod.mk.inj h
    refine ⟨⟨rfl, ?_⟩, fun _ => rfl⟩
    intro key hkey
    cases hkey
  · rw [hg] at h
    obtain ⟨hfault, rfl⟩ := Prod.mk.inj h
    obtain rfl := Except.error.inj hfault
    refine ⟨⟨rfl, ?_⟩, fun hnot => absurd hdangling hnot⟩
    intro key hkey
    have hmem := mem_keys_of_linkParents key hkey
    rw [Module.keys_listOfBlocks, List.mem_range'_1] at hmem
    exact hmem.2
  · rw [hms] at h
    cases h

/-- The lineage of a new importer holds nothing but the blocks of its modules with a parent. -/
theorem renew_get_eq_ok (h : (t.renew.get host files).result = (.ok modules, t')) :
    ∃ entries items, readTree host files t.path = .ok entries ∧
      Datum.member? entries "modules" = some (.list items) ∧
      t'.lineage.HoldsExactly items modules := by
  obtain ⟨entries, items, list, hloads⟩ := exists_loads_of_load h
  have hlineage : t'.lineage = (linkParents modules [] list.parents).2 :=
    (congrArg Prod.snd hloads.linked).symm
  refine ⟨entries, items, hloads.read, hloads.member, ?_, ?_⟩
  · rw [hlineage]
    exact nodup_keys_linkParents modules list.parents
  · intro key
    constructor
    · intro hkey
      obtain ⟨m, hm, hblock⟩ :=
        List.mem_flatMap.mp (mem_keys_of_linkParents key (hlineage ▸ hkey))
      obtain ⟨p, hp⟩ := List.mem_iff_getElem?.mp hm
      obtain ⟨b, hb, rfl⟩ := List.mem_map.mp hblock
      have hsome : (t'.lineage.parent? b).isSome = true := Table.mem_keys_iff.mp hkey
      rw [hloads.parent?_eq rfl hp hb] at hsome
      exact ⟨p, m, hp, Option.isSome_of_isSome_bind hsome, hblock⟩
    · rintro ⟨p, m, hp, hparent, hblock⟩
      obtain ⟨b, hb, rfl⟩ := List.mem_map.mp hblock
      obtain ⟨parent, hsome⟩ := Option.isSome_iff_exists.mp hparent
      have hentry : t'.lineage.parent? b = moduleBlockAt? modules parent := by
        rw [hloads.parent?_eq rfl hp hb, hsome, Option.bind_some]
      refine Table.mem_keys_iff.mpr ?_
      show (t'.lineage.parent? b).isSome = true
      rw [hentry]
      exact hloads.isSome_moduleBlockAt? hsome

/-- A load that fails leaves the importer waiting, and its lineage as it was unless a parent leads
nowhere. -/
theorem IsWaiting.get_eq_error (ht : t.IsWaiting) {f : LoadFault}
    (h : (t.get host files).result = (.error f, t')) :
    t'.IsWaiting ∧ t'.renew = t.renew ∧ (¬f.IsDangling → t'.lineage = t.lineage) := by
  rw [ht.get_result] at h
  rcases hfresh : (t.renew.get host files).result with ⟨g | ms, v⟩
  · rw [hfresh] at h
    obtain ⟨hfault, rfl⟩ := Prod.mk.inj h
    obtain rfl := Except.error.inj hfault
    obtain ⟨hv, hclean⟩ := renew_get_eq_error hfresh
    refine ⟨⟨?_, ?_⟩, rfl, ?_⟩
    · show v.modules.map (List.map (Module.shift t.nextKey)) = none
      rw [hv.modules]
      rfl
    · show ∀ key ∈ Table.keys (t.lineage ++ v.lineage.shift t.nextKey), key < t.nextKey + v.nextKey
      intro key hkey
      rw [Lineage.keys_append_shift] at hkey
      rcases List.mem_append.mp hkey with hkey | hkey
      · have hlt := ht.lineage key hkey
        omega
      · obtain ⟨k, hk, rfl⟩ := List.mem_map.mp hkey
        have hlt := hv.lineage k hk
        omega
    · intro hnot
      show t.lineage ++ v.lineage.shift t.nextKey = t.lineage
      rw [hclean hnot]
      exact List.append_nil t.lineage
  · rw [hfresh] at h
    cases h

/-- A load that succeeds adds the entries that a new importer makes to those that are there. -/
theorem IsWaiting.get_eq_ok (ht : t.IsWaiting) (h : (t.get host files).result = (.ok modules, t')) :
    ∃ ms v, (t.renew.get host files).result = (.ok ms, v) ∧
      modules = ms.map (Module.shift t.nextKey) ∧
      t'.lineage = t.lineage ++ v.lineage.shift t.nextKey := by
  rw [ht.get_result] at h
  rcases hfresh : (t.renew.get host files).result with ⟨g | ms, v⟩
  · rw [hfresh] at h
    cases h
  · rw [hfresh] at h
    obtain ⟨hmodules, rfl⟩ := Prod.mk.inj h
    exact ⟨ms, v, rfl, (Except.ok.inj hmodules).symm, rfl⟩

/-- The modules that are given are kept. -/
theorem modules_of_get_eq_ok (h : (t.get host files).result = (.ok modules, t')) :
    t'.modules = some modules := by
  cases hmodules : t.modules with
  | some ms =>
    unfold get at h
    rw [hmodules] at h
    obtain ⟨hms, rfl⟩ := Prod.mk.inj h
    rw [hmodules, Except.ok.inj hms]
  | none =>
    rcases get_cases hmodules host files with ⟨g, hg⟩ | ⟨list, g, hg, -⟩ | ⟨list, ms, hms⟩
    · rw [hg] at h
      cases h
    · rw [hg] at h
      cases h
    · rw [hms] at h
      obtain ⟨hsame, rfl⟩ := Prod.mk.inj h
      exact congrArg some (Except.ok.inj hsame)

theorem get_of_modules (h : t.modules = some modules) (host : Host) (files : FileTree) :
    (t.get host files).result = (.ok modules, t) := by
  unfold get
  rw [h]
  rfl

end Load

-- ════════════════════════════════════════════════════════════════════════
-- Loads in a row
-- ════════════════════════════════════════════════════════════════════════

/-- What an importer gives when it is asked for its modules with one file tree after the other, and
the importer after that. -/
def asks (t : TreeImporter) (host : Host) :
    List FileTree → List (Except LoadFault (List Module)) × TreeImporter
  | [] => ([], t)
  | files :: rest =>
    let (outcome, u) := (t.get host files).result
    let (outcomes, v) := u.asks host rest
    (outcome :: outcomes, v)

/-- What the lineage `l` holds when the importer `s` gives `modules` for the items of a tree in
`loaded`, after it has been asked for them with the file trees `failed` in vain. -/
structure LoadsAtLast (s : TreeImporter) (host : Host) (failed : List FileTree)
    (loaded : FileTree) (items : List Datum) (modules : List Module) (l : Lineage) : Prop where
  inVain : ∀ outcome ∈ (s.asks host failed).1, ∃ f, outcome = .error f
  reads : ∃ entries, readTree host loaded s.path = .ok entries ∧
    Datum.member? entries "modules" = some (.list items)
  /-- The entries that a new importer makes follow on those that have been left behind. -/
  appended : ∃ ms v, (s.get host loaded).result = (.ok ms, v) ∧ v.lineage.HoldsExactly items ms ∧
    modules = ms.map (Module.shift (s.asks host failed).2.nextKey) ∧
    l = (s.asks host failed).2.lineage ++ v.lineage.shift (s.asks host failed).2.nextKey
  /-- An entry that has been left behind is for no block of the modules. -/
  apart : ∀ m ∈ modules, ∀ b ∈ m.blocks, b.key ∉ Table.keys (s.asks host failed).2.lineage
  holdsExactly_iff : l.HoldsExactly items modules ↔ (s.asks host failed).2.lineage = []
  /-- Nothing is left behind if no load has failed over a parent that leads nowhere. -/
  clean : (∀ f, .error f ∈ (s.asks host failed).1 → ¬f.IsDangling) →
    (s.asks host failed).2.lineage = []

section Asks

variable {t u : TreeImporter} {host : Host} {modules : List Module}

theorem start_isWaiting (name : String) (options : ParserOptions) :
    (start name options).result.IsWaiting := by
  refine ⟨rfl, ?_⟩
  intro key hkey
  cases hkey

theorem asks_cons (t : TreeImporter) (host : Host) (files : FileTree) (rest : List FileTree) :
    t.asks host (files :: rest) =
      ((t.get host files).result.1 :: ((t.get host files).result.2.asks host rest).1,
        ((t.get host files).result.2.asks host rest).2) := rfl

/-- An importer that has its modules stays as it is. -/
theorem asks_of_modules (h : t.modules = some modules) (trees : List FileTree) :
    (t.asks host trees).2 = t := by
  induction trees with
  | nil => rfl
  | cons files rest ih => rw [asks_cons, get_of_modules h, ih]

/-- Loads that fail leave the importer waiting, and its lineage as it was unless a parent leads
nowhere. -/
theorem IsWaiting.asks_eq_error (ht : t.IsWaiting) {trees : List FileTree}
    (h : ∀ outcome ∈ (t.asks host trees).1, ∃ f, outcome = .error f) :
    (t.asks host trees).2.IsWaiting ∧ (t.asks host trees).2.renew = t.renew ∧
      ((∀ f, .error f ∈ (t.asks host trees).1 → ¬f.IsDangling) →
        (t.asks host trees).2.lineage = t.lineage) := by
  induction trees generalizing t with
  | nil => exact ⟨ht, rfl, fun _ => rfl⟩
  | cons files rest ih =>
    rw [asks_cons] at h ⊢
    obtain ⟨⟨f, hf⟩, hrest⟩ := List.forall_mem_cons.mp h
    have hget : (t.get host files).result = (.error f, (t.get host files).result.2) :=
      Prod.ext hf rfl
    obtain ⟨hwaiting, hrenew, hlineage⟩ := ht.get_eq_error hget
    obtain ⟨hwaiting', hrenew', hlineage'⟩ := ih hwaiting hrest
    refine ⟨hwaiting', hrenew'.trans hrenew, ?_⟩
    intro hclean
    have hfirst : ¬f.IsDangling := hclean f (hf ▸ List.mem_cons_self ..)
    rw [hlineage' fun g hg => hclean g (List.mem_cons_of_mem _ hg), hlineage hfirst]

/-- An importer that gives its modules at last has loaded them once, after loads that failed. -/
theorem IsWaiting.exists_load_of_asks (ht : t.IsWaiting) {trees : List FileTree} {files : FileTree}
    (h : ((t.asks host trees).2.get host files).result = (.ok modules, u)) :
    ∃ failed loaded later, trees ++ [files] = failed ++ loaded :: later ∧
      (∀ outcome ∈ (t.asks host failed).1, ∃ f, outcome = .error f) ∧
      ((t.asks host failed).2.get host loaded).result = (.ok modules, u) := by
  induction trees generalizing t with
  | nil => exact ⟨[], files, [], rfl, by simp [asks], h⟩
  | cons first rest ih =>
    rw [asks_cons] at h
    rcases hget : (t.get host first).result with ⟨f | ms, v⟩
    · rw [hget] at h
      obtain ⟨failed, loaded, later, htrees, hfailed, hloaded⟩ := ih (ht.get_eq_error hget).1 h
      refine ⟨first :: failed, loaded, later, congrArg (first :: ·) htrees, ?_, ?_⟩
      · rw [asks_cons, hget]
        exact List.forall_mem_cons.mpr ⟨⟨f, rfl⟩, hfailed⟩
      · rw [asks_cons, hget]
        exact hloaded
    · have hmodules := modules_of_get_eq_ok hget
      rw [hget, asks_of_modules hmodules, get_of_modules hmodules] at h
      exact ⟨[], first, rest ++ [files], rfl, by simp [asks], hget.trans h⟩

/-- The entries that have been left behind stand in front of those that a new importer makes. -/
theorem IsWaiting.loadsAtLast (hs : t.IsWaiting) (hrenew : t.renew = t) {failed : List FileTree}
    {loaded : FileTree} (hfailed : ∀ outcome ∈ (t.asks host failed).1, ∃ f, outcome = .error f)
    (h : ((t.asks host failed).2.get host loaded).result = (.ok modules, u)) :
    ∃ items, t.LoadsAtLast host failed loaded items modules u.lineage := by
  obtain ⟨hwaiting, hsame, hclean⟩ := hs.asks_eq_error hfailed
  obtain ⟨ms, v, hfresh, hmodules, hlineage⟩ := hwaiting.get_eq_ok h
  rw [hsame] at hfresh
  obtain ⟨entries, items, hread, hmember, hexact⟩ := renew_get_eq_ok hfresh
  have hnil : t.lineage = [] := by
    rw [← hrenew]
    rfl
  have happart : ∀ m ∈ modules, ∀ b ∈ m.blocks,
      b.key ∉ Table.keys (t.asks host failed).2.lineage := by
    rw [hmodules]
    intro m hm b hb hkey
    obtain ⟨n, -, rfl⟩ := List.mem_map.mp hm
    obtain ⟨c, -, rfl⟩ := List.mem_map.mp hb
    have hlt : c.key + (t.asks host failed).2.nextKey < (t.asks host failed).2.nextKey :=
      hwaiting.lineage _ hkey
    omega
  refine ⟨items, hfailed, ⟨entries, hread, hmember⟩,
    ⟨ms, v, hrenew ▸ hfresh, hexact, hmodules, hlineage⟩, happart, ⟨?_, ?_⟩,
    fun h => (hclean h).trans hnil⟩
  · intro hall
    refine List.eq_nil_iff_forall_not_mem.mpr ?_
    intro e he
    have hleft : e.1 ∈ Table.keys (t.asks host failed).2.lineage := List.mem_map_of_mem he
    have hkey : e.1 ∈ Table.keys u.lineage := by
      rw [hlineage, Lineage.keys_append_shift]
      exact List.mem_append_left _ hleft
    obtain ⟨p, m, hp, -, hblock⟩ := (hall.mem_iff e.1).mp hkey
    obtain ⟨b, hb, heq⟩ := List.mem_map.mp hblock
    exact happart m (List.mem_of_getElem? hp) b hb (heq ▸ hleft)
  · intro hleft
    rw [hlineage, hleft, hmodules]
    exact hexact.shift _

end Asks

/-- What the lineage of an importer holds when it gives its modules, however often it has been asked
for them before, and whatever its file has held each time. -/
theorem exists_loadsAtLast (host : Host) (name : String) (options : ParserOptions)
    (trees : List FileTree) (files : FileTree) (modules : List Module) (t : TreeImporter)
    (h : (((start name options).result.asks host trees).2.get host files).result =
      (.ok modules, t)) :
    ∃ failed loaded later items, trees ++ [files] = failed ++ loaded :: later ∧
      (start name options).result.LoadsAtLast host failed loaded items modules t.lineage := by
  have hstart := start_isWaiting name options
  obtain ⟨failed, loaded, later, htrees, hfailed, hloaded⟩ := hstart.exists_load_of_asks h
  obtain ⟨items, hlast⟩ := hstart.loadsAtLast rfl hfailed hloaded
  exact ⟨failed, loaded, later, items, htrees, hlast⟩

/-- The file of a tree that consists of the given lines. -/
def fileOf (lines : List String) : FileTree where
  files := [(["tree.yaml"],
    lines.flatMap fun line => (line.toList ++ ['\n']).map fun c => UInt8.ofNat c.toNat)]

namespace Dangling

/-- The file of a tree of two modules, the second one below a module block of the first, and of
further modules. -/
def files (further : List String) : FileTree :=
  fileOf <| ["modules:", "- blocks:"] ++ Nested.blockLines "module" "a" ++
    Nested.parentLines "0" "module.a" ++ Nested.blockLines "output" "b" ++ further

/-- The lines of a module whose parent leads nowhere. -/
def dangling : List String :=
  Nested.parentLines "0" "module.z" ++ Nested.blockLines "output" "c"

/-- The importer of the file after it has been asked for its modules in vain. -/
def refused : List (Except LoadFault (List Module)) × TreeImporter :=
  (start "tree.yaml" {}).result.asks .plain [files dangling]

/-- The keys of the blocks of each module, and those in the lineage. -/
def keys (modules : List Module) (t : TreeImporter) : List (List Nat) × List Nat :=
  (modules.map fun m => m.blocks.map RootBlock.key, Table.keys t.lineage)

/-- The parent that leads nowhere ends the first load, after the entry for the block with the key 1
has been made. -/
theorem refused_left :
    (refused.1.map Except.toBool, Table.keys refused.2.lineage) = ([false], [1]) := by
  decide +kernel

theorem exists_error_of_mem_refused : ∀ outcome ∈ refused.1, ∃ f, outcome = .error f := by
  obtain ⟨hfirst, -⟩ := Prod.mk.inj refused_left
  intro outcome hmem
  have htest : outcome.toBool ∈ refused.1.map Except.toBool := List.mem_map_of_mem hmem
  rw [hfirst] at htest
  cases outcome with
  | error f => exact ⟨f, rfl⟩
  | ok modules => cases List.mem_singleton.mp htest

/-- Once the module is gone the load succeeds, and the entry is still there. -/
theorem exists_get_files :
    ∃ modules t, (refused.2.get .plain (files [])).result = (.ok modules, t) ∧
      keys modules t = ([[3], [4]], [1, 4]) := by
  apply Nested.exists_of_toOption_map
  decide +kernel

/-- An entry that has been left behind stands in front of the others. -/
theorem exists_loadsAtLast_dangling :
    ∃ modules t, (refused.2.get .plain (files [])).result = (.ok modules, t) ∧
      keys modules t = ([[3], [4]], [1, 4]) ∧
      ∃ failed loaded later items, [files dangling] ++ [files []] = failed ++ loaded :: later ∧
        (start "tree.yaml" {}).result.LoadsAtLast .plain failed loaded items modules t.lineage := by
  obtain ⟨modules, t, hget, hkeys⟩ := exists_get_files
  exact ⟨modules, t, hget, hkeys,
    exists_loadsAtLast .plain "tree.yaml" {} [files dangling] (files []) modules t hget⟩

/-- The lineage need not be that of a new importer after loads that have failed. -/
theorem not_forall_holdsExactly :
    ¬∀ (name : String) (options : ParserOptions) (failed : List FileTree) (files : FileTree)
      (modules : List Module) (t : TreeImporter),
      (∀ outcome ∈ ((start name options).result.asks .plain failed).1, ∃ f, outcome = .error f) →
      (((start name options).result.asks .plain failed).2.get .plain files).result =
        (.ok modules, t) →
      ∀ entries items, readTree .plain files (Path.ofText name) = .ok entries →
        Datum.member? entries "modules" = some (.list items) →
        t.lineage.HoldsExactly items modules := by
  intro hall
  obtain ⟨modules, t, hget, -⟩ := exists_get_files
  have hlast : ∃ items, (start "tree.yaml" {}).result.LoadsAtLast .plain [files dangling]
      (files []) items modules t.lineage :=
    (start_isWaiting "tree.yaml" {}).loadsAtLast rfl exists_error_of_mem_refused hget
  obtain ⟨items, hlast⟩ := hlast
  obtain ⟨entries, hread, hmember⟩ := hlast.reads
  have hexact := hall "tree.yaml" {} [files dangling] (files []) modules t
    exists_error_of_mem_refused hget entries items hread hmember
  obtain ⟨-, hleft⟩ := Prod.mk.inj refused_left
  unfold refused at hleft
  rw [hlast.holdsExactly_iff.mp hexact] at hleft
  cases hleft

end Dangling

end TreeImporter

end BlockDoc
