import BlockDoc.Proofs.Tree.Outcomes
import BlockDoc.Proofs.Tree.Parent
import Mathlib.Data.List.Chain
import Mathlib.Data.List.Nodup
import Mathlib.Logic.Relation

/-!
# Cycles of parents

The search for a cycle follows the links from each module in turn, and remembers the modules that it
has met. It has no counter: a walk ends because the modules that it has met are all different and
have a parent, and there are only so many of these. A walk that comes back has found a cycle, and
one that leaves the table has shown that there is none ahead.

## Main definitions

* `ParentTable.Links` — the link from a module to the module that its parent is in
* `ParentTable.ComesBack` — the links from a module come back to one already met
* `ParentTable.Walks` — the walk from a module as a loop, with its rounds
* `ParentTable.IsLoopWay` — the ways that end where they have been before
* `ParentTable.FindsCycles` — what the search finds

## Main results

* `ParentTable.findsCycles` — every walk ends, and the first cycle is found if there is one
-/

namespace BlockDoc

namespace ParentTable

-- ════════════════════════════════════════════════════════════════════════
-- Links
-- ════════════════════════════════════════════════════════════════════════

/-- The link from a module to the module that its parent is in, both given by their positions. -/
def Links (parents : ParentTable) (p q : Nat) : Prop :=
  ∃ parent, Table.find? parents p = some parent ∧ parent.module = q

/-- The links from a module come back to a module that they have met before: to the module itself or
to a later one on the way. -/
def ComesBack (parents : ParentTable) (start : Nat) : Prop :=
  ∃ q, Relation.ReflTransGen parents.Links start q ∧ Relation.TransGen parents.Links q q

/-- The walk from a position as a loop, given the positions `seen` so far. It goes on for the given
number of rounds, and ends when it leaves the table, without a result, or when it comes back to a
position that it has seen, with the whole way. A derivation is a loop that ends. -/
inductive Walks (parents : ParentTable) : Nat → List Nat → Nat → Option (List Nat) → Prop
  | leave {seen : List Nat} {position : Nat} (hfind : Table.find? parents position = none) :
    Walks parents 0 seen position none
  | back {seen : List Nat} {position : Nat} {parent : ParentRef}
    (hfind : Table.find? parents position = some parent) (hseen : position ∈ seen) :
    Walks parents 0 seen position (some (seen ++ [position]))
  | on {rounds : Nat} {seen : List Nat} {position : Nat} {parent : ParentRef}
    {result : Option (List Nat)} (hfind : Table.find? parents position = some parent)
    (hseen : position ∉ seen)
    (hon : Walks parents rounds (seen ++ [position]) parent.module result) :
    Walks parents (rounds + 1) seen position result

/-- A way along the links from `start` on which no position but the last is repeated, and the last
one repeats an earlier one. -/
structure IsLoopWay (parents : ParentTable) (start : Nat) (way : List Nat) : Prop where
  head : way.head? = some start
  links : way.IsChain parents.Links
  back : ∃ seen last, way = seen ++ [last] ∧ seen.Nodup ∧ last ∈ seen

section Links

variable {parents : ParentTable} {p q start : Nat} {parent : ParentRef}

/-- Links that come back go on, and come back from the next module on. -/
theorem ComesBack.exists_links (h : parents.ComesBack p) :
    ∃ q, parents.Links p q ∧ parents.ComesBack q := by
  obtain ⟨r, hto, hcycle⟩ := h
  obtain ⟨q, hlink, hon⟩ := Relation.TransGen.head'_iff.mp (.trans_right hto hcycle)
  exact ⟨q, hlink, r, hon, hcycle⟩

/-- Links that end do not come back. -/
theorem Ends.not_comesBack (h : parents.Ends p) : ¬parents.ComesBack p := by
  induction h with
  | root hnone =>
    intro hback
    obtain ⟨q, ⟨parent, hfind, -⟩, -⟩ := hback.exists_links
    rw [hnone] at hfind
    cases hfind
  | child hfind _ ih =>
    intro hback
    obtain ⟨q, ⟨parent, hparent, rfl⟩, hon⟩ := hback.exists_links
    obtain rfl := Option.some.inj (hfind.symm.trans hparent)
    exact ih hon

theorem transGen_of_isChain {r : Nat → Nat → Prop} {middle : List Nat}
    (h : (p :: (middle ++ [q])).IsChain r) : Relation.TransGen r p q := by
  induction middle generalizing p with
  | nil => exact .single (List.isChain_pair.mp h)
  | cons m rest ih =>
    obtain ⟨hstep, hrest⟩ := List.isChain_cons_cons.mp h
    exact .head hstep (ih hrest)

/-- A way that ends where it has been before shows that the links come back. -/
theorem IsLoopWay.comesBack {way : List Nat} (h : parents.IsLoopWay start way) :
    parents.ComesBack start := by
  obtain ⟨seen, last, rfl, -, hmem⟩ := h.back
  obtain ⟨before, between, rfl⟩ := List.append_of_mem hmem
  have hlinks := h.links
  rw [List.append_assoc, List.cons_append, List.isChain_split] at hlinks
  refine ⟨last, ?_, transGen_of_isChain hlinks.2⟩
  have hhead := h.head
  cases before with
  | nil =>
    obtain rfl := Option.some.inj hhead
    exact .refl
  | cons first rest =>
    obtain rfl := Option.some.inj hhead
    exact (transGen_of_isChain hlinks.1).to_reflTransGen

end Links

-- ════════════════════════════════════════════════════════════════════════
-- One walk
-- ════════════════════════════════════════════════════════════════════════

section Walks

variable {parents : ParentTable} {start position : Nat} {seen : List Nat}

/-- The search for a cycle is the walk. Of the entries, at most those of the positions seen so far
have been taken out, so each round takes out one of them. -/
theorem exists_walks_climb (unused : ParentTable) (seen : List Nat) (position : Nat)
    (hseen : ∀ q ∈ seen, ∃ parent, Table.find? parents q = some parent)
    (hunused : ∀ q ∉ seen, Table.find? unused q = Table.find? parents q) :
    ∃ rounds, rounds ≤ unused.length ∧
      Walks parents rounds seen position (climb unused seen position) := by
  induction unused, seen, position using climb.induct with
  | case1 unused seen position hmem =>
    obtain ⟨parent, hfind⟩ := hseen position hmem
    rw [climb, if_pos hmem]
    exact ⟨0, Nat.zero_le _, .back hfind hmem⟩
  | case2 unused seen position hmem hnone =>
    rw [climb, if_neg hmem, hnone]
    rw [hunused position hmem] at hnone
    exact ⟨0, Nat.zero_le _, .leave hnone⟩
  | case3 unused seen position hmem parent hparent ih =>
    have hfind : Table.find? parents position = some parent := by
      rw [← hunused position hmem]
      exact hparent
    have hseen' : ∀ q ∈ seen ++ [position], ∃ parent, Table.find? parents q = some parent := by
      intro q hq
      rcases List.mem_append.mp hq with hq | hq
      · exact hseen q hq
      · rw [List.mem_singleton.mp hq]
        exact ⟨parent, hfind⟩
    have hunused' : ∀ q ∉ seen ++ [position],
        Table.find? (Table.remove unused position) q = Table.find? parents q := by
      intro q hq
      rw [List.mem_append, List.mem_singleton, not_or] at hq
      rw [Table.find?_remove_of_ne unused (Ne.symm hq.2)]
      exact hunused q hq.1
    obtain ⟨rounds, hrounds, hon⟩ := ih hseen' hunused'
    have hlt := Table.length_remove_lt hparent
    rw [climb, if_neg hmem, hparent]
    exact ⟨rounds + 1, by omega, .on hfind hmem hon⟩

/-- The walk from a module starts with its parent, and has one round less than there are parents at
most. -/
theorem exists_walks_cycleFrom? {parent : ParentRef}
    (h : Table.find? parents start = some parent) :
    ∃ rounds, rounds < parents.length ∧
      Walks parents rounds [start] parent.module (cycleFrom? parents start) := by
  obtain ⟨rounds, hrounds, hwalk⟩ : ∃ rounds, rounds ≤ parents.length ∧
      Walks parents rounds [] start (climb parents [] start) :=
    exists_walks_climb parents [] start (by simp) fun _ _ => rfl
  unfold cycleFrom?
  generalize climb parents [] start = result at hwalk ⊢
  cases hwalk with
  | leave hnone =>
    rw [h] at hnone
    cases hnone
  | back _ hseen => cases hseen
  | on hfind _ hon =>
    obtain rfl := Option.some.inj (h.symm.trans hfind)
    exact ⟨_, hrounds, hon⟩

/-- Where a walk from `start` stands: what it has seen, and then the position, is a way along the
links, and no position has been seen twice. -/
structure IsOnWay (parents : ParentTable) (start : Nat) (seen : List Nat) (position : Nat) :
    Prop where
  head : (seen ++ [position]).head? = some start
  links : (seen ++ [position]).IsChain parents.Links
  distinct : seen.Nodup

/-- A round goes on to the parent. -/
theorem IsOnWay.on (h : parents.IsOnWay start seen position) {parent : ParentRef}
    (hfind : Table.find? parents position = some parent) (hseen : position ∉ seen) :
    parents.IsOnWay start (seen ++ [position]) parent.module where
  head := by
    rw [List.head?_append, h.head]
    rfl
  links := by
    rw [List.append_assoc, List.singleton_append, List.isChain_append_cons_cons]
    exact ⟨h.links, ⟨parent, hfind, rfl⟩, .singleton _⟩
  distinct := List.nodup_append.mpr ⟨h.distinct, List.nodup_singleton position, by
    intro p hp q hq
    rw [List.mem_singleton.mp hq]
    rintro rfl
    exact hseen hp⟩

/-- A walk that has a result has gone a way that ends where it has been before. -/
theorem IsOnWay.isLoopWay {rounds : Nat} {result : Option (List Nat)}
    (h : parents.IsOnWay start seen position) (hwalk : Walks parents rounds seen position result)
    {way : List Nat} (hway : result = some way) : parents.IsLoopWay start way := by
  induction hwalk with
  | leave _ => cases hway
  | back _ hseen =>
    obtain rfl := Option.some.inj hway
    exact ⟨h.head, h.links, _, _, rfl, h.distinct, hseen⟩
  | on hfind hseen _ ih => exact ih (h.on hfind hseen) hway

theorem isLoopWay_of_cycleFrom? {parent : ParentRef} {way : List Nat}
    (hstart : Table.find? parents start = some parent)
    (h : cycleFrom? parents start = some way) : parents.IsLoopWay start way := by
  obtain ⟨rounds, -, hwalk⟩ := exists_walks_cycleFrom? hstart
  have hway : parents.IsOnWay start [start] parent.module :=
    ⟨rfl, List.isChain_pair.mpr ⟨parent, hstart, rfl⟩, List.nodup_singleton start⟩
  exact hway.isLoopWay hwalk h

/-- A walk has a result if and only if the links come back. -/
theorem exists_cycleFrom?_iff {parent : ParentRef} (h : Table.find? parents start = some parent) :
    (∃ way, cycleFrom? parents start = some way) ↔ parents.ComesBack start := by
  constructor
  · rintro ⟨way, hway⟩
    exact (isLoopWay_of_cycleFrom? h hway).comesBack
  · intro hback
    by_contra hnone
    have hends : parents.Ends start :=
      ends_of_climb (Option.eq_none_iff_forall_ne_some.mpr fun way hway => hnone ⟨way, hway⟩)
        fun _ _ => rfl
    exact hends.not_comesBack hback

end Walks

-- ════════════════════════════════════════════════════════════════════════
-- The search
-- ════════════════════════════════════════════════════════════════════════

section Search

variable {parents : ParentTable}

theorem exists_find?_of_mem {e : Nat × ParentRef} (h : e ∈ parents) :
    ∃ parent, Table.find? parents e.1 = some parent :=
  Option.isSome_iff_exists.mp (Table.mem_keys_iff.mp (List.mem_map_of_mem h))

/-- There is a cycle ahead of some module if and only if one is found. -/
theorem exists_cycle?_iff :
    (∃ way, cycle? parents = some way) ↔ ∃ start ∈ Table.keys parents, parents.ComesBack start := by
  rw [← Option.isSome_iff_exists, cycle?, List.findSome?_isSome_iff]
  constructor
  · rintro ⟨e, he, hway⟩
    obtain ⟨parent, hfind⟩ := exists_find?_of_mem he
    exact ⟨e.1, List.mem_map_of_mem he,
      (exists_cycleFrom?_iff hfind).mp (Option.isSome_iff_exists.mp hway)⟩
  · rintro ⟨start, hstart, hback⟩
    obtain ⟨e, he, rfl⟩ := List.mem_map.mp hstart
    obtain ⟨parent, hfind⟩ := exists_find?_of_mem he
    exact ⟨e, he, Option.isSome_iff_exists.mpr ((exists_cycleFrom?_iff hfind).mpr hback)⟩

/-- The way that is found starts at the first module whose links come back. -/
theorem exists_first_of_cycle? {way : List Nat} (h : cycle? parents = some way) :
    ∃ before start after, Table.keys parents = before ++ start :: after ∧
      (∀ p ∈ before, ¬parents.ComesBack p) ∧ parents.IsLoopWay start way := by
  obtain ⟨before, e, after, hsplit, hway, hbefore⟩ := List.findSome?_eq_some_iff.mp h
  have hmem : e ∈ parents := by simp [hsplit]
  obtain ⟨parent, hfind⟩ := exists_find?_of_mem hmem
  refine ⟨before.map Prod.fst, e.1, after.map Prod.fst, ?_, ?_, isLoopWay_of_cycleFrom? hfind hway⟩
  · rw [hsplit, Table.keys, List.map_append, List.map_cons]
  · intro p hp hback
    obtain ⟨d, hd, rfl⟩ := List.mem_map.mp hp
    have hmem : d ∈ parents := by simp [hsplit, hd]
    obtain ⟨parent, hparent⟩ := exists_find?_of_mem hmem
    obtain ⟨way, hfound⟩ := (exists_cycleFrom?_iff hparent).mpr hback
    rw [hbefore d hd] at hfound
    cases hfound

/-- A tree is refused over a cycle of parents if and only if one is found. -/
theorem loadModules_eq_parentCycle_iff (t : TreeImporter) {entries : List (Datum × Datum)}
    {list : ModuleList} (h : checkModules entries = .ok list) {way : List Nat} :
    (t.loadModules entries).result.1 = .error (.refused (.parentCycle way)) ↔
      cycle? list.parents = some way := by
  unfold TreeImporter.loadModules
  rw [h]
  dsimp only
  cases hcycle : cycle? list.parents with
  | some found =>
    show Except.error _ = Except.error _ ↔ _
    simp
  | none =>
    -- The links of the blocks are made then, which has other faults.
    refine iff_of_false ?_ (by simp)
    intro hlink
    rcases t.link_cases list with ⟨f, hf, hdangling⟩ | ⟨modules, hmodules⟩
    · rw [hf] at hlink
      obtain rfl := Except.error.inj hlink
      cases hdangling
    · rw [hmodules] at hlink
      cases hlink

end Search

/-- What the search for a cycle finds in a table of parents. -/
structure FindsCycles (parents : ParentTable) : Prop where
  /-- The walk from a module ends, with what is found from there. -/
  ends : ∀ start parent, Table.find? parents start = some parent →
    ∃ rounds, rounds < parents.length ∧
      Walks parents rounds [start] parent.module (cycleFrom? parents start)
  found_iff : (∃ way, cycle? parents = some way) ↔
    ∃ start ∈ Table.keys parents, parents.ComesBack start
  /-- The way that is found starts at the first module, in the order of the entries, whose links
  come back. -/
  first : ∀ way, cycle? parents = some way → ∃ before start after,
    Table.keys parents = before ++ start :: after ∧ (∀ p ∈ before, ¬parents.ComesBack p) ∧
      parents.IsLoopWay start way
  /-- A tree with these parents is refused if a way is found, and then reports it. -/
  refused_iff : ∀ (t : TreeImporter) (entries : List (Datum × Datum)) (list : ModuleList),
    checkModules entries = .ok list → list.parents = parents → ∀ way,
      ((t.loadModules entries).result.1 = .error (.refused (.parentCycle way)) ↔
        cycle? parents = some way)

/-- In every table of parents the search for a cycle ends, and finds the first one if there is
one. -/
theorem findsCycles (parents : ParentTable) : parents.FindsCycles where
  ends _ _ h := exists_walks_cycleFrom? h
  found_iff := exists_cycle?_iff
  first _ h := exists_first_of_cycle? h
  refused_iff t _ _ h hparents way := by
    rw [← hparents]
    exact loadModules_eq_parentCycle_iff t h

/-- The first module has a parent that is missing, and the second leads into a cycle of two
others. -/
example : cycle? [(3, ⟨7, "module.a"⟩), (4, ⟨1, "module.b"⟩), (1, ⟨2, "module.c"⟩),
    (2, ⟨1, "module.d"⟩)] = some [4, 1, 2, 1] := by
  decide +kernel

end ParentTable

end BlockDoc
