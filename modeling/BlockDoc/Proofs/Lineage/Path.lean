import BlockDoc.Proofs.Lineage.Acyclic
import BlockDoc.Proofs.Lineage.Register
import Mathlib.Data.List.Nodup
import Mathlib.Data.List.Perm.Subperm

/-!
# Paths of modules

In an acyclic lineage a block has a name other than the empty one exactly if the lineage has an
entry for it, since the address of a module block is never empty. The path of a module is decided by
the set of the names of its blocks: there is none among the blocks that have no entry, the only one
is the path, and if there are several, they are reported in order, each once.

## Main definitions

* `Registration` — the calls that enter blocks into a lineage
* `Lineage.ofRegistrations` — the lineage after calls
* `Lineage.HasPathOf` — how the path of a module follows from the names of its blocks

## Main results

* `Lineage.hasPathOf_ofRegistrations` — this is so in every acyclic lineage
-/

namespace BlockDoc

-- ════════════════════════════════════════════════════════════════════════
-- Registrations
-- ════════════════════════════════════════════════════════════════════════

/-- A call that enters a block, or all blocks of a module, below a parent. -/
inductive Registration
  | block (b parent : RootBlock)
  | module (m : Module) (parent : RootBlock)

/-- The lineage after a call. A call that fails has changed nothing. -/
def Registration.apply (l : Lineage) : Registration → Lineage
  | .block b parent => (l.register b parent).toOption.getD l
  | .module m parent => (l.registerModule m parent).toOption.getD l

namespace Lineage

/-- The lineage after calls in order, the first one on an empty lineage. -/
def ofRegistrations (rs : List Registration) : Lineage :=
  rs.foldl Registration.apply []

/-- All entries lead to module blocks. -/
def HasModuleBlocks (l : Lineage) : Prop :=
  ∀ e ∈ l, e.2.block.type = Block.moduleType

theorem HasModuleBlocks.register {l l' : Lineage} {b parent : RootBlock} (hl : l.HasModuleBlocks)
    (h : l.register b parent = .ok l') : l'.HasModuleBlocks := by
  unfold Lineage.register at h
  split at h
  · next htype =>
    obtain rfl := Except.ok.inj h
    exact Table.forall_mem_put (P := fun r : RootBlock => r.block.type = Block.moduleType) hl htype
  · cases h

theorem HasModuleBlocks.registerModule {l l' : Lineage} {m : Module} {parent : RootBlock}
    (hl : l.HasModuleBlocks) (h : l.registerModule m parent = .ok l') : l'.HasModuleBlocks := by
  obtain ⟨hallowed, rfl⟩ := registerModule_eq_ok h
  refine Table.forall_mem_putAll (P := fun r : RootBlock => r.block.type = Block.moduleType) hl
    fun e he => ?_
  obtain ⟨b, hb, rfl⟩ := List.mem_map.mp he
  rcases hallowed with htype | hnil
  · exact htype
  · rw [hnil] at hb
    cases hb

theorem HasModuleBlocks.apply {l : Lineage} (hl : l.HasModuleBlocks) (r : Registration) :
    (Registration.apply l r).HasModuleBlocks := by
  have hgetD : ∀ x : Except NotModuleBlock Lineage, (∀ u, x = .ok u → u.HasModuleBlocks) →
      HasModuleBlocks (x.toOption.getD l) := by
    intro x hx
    cases x with
    | error e => exact hl
    | ok u => exact hx u rfl
  cases r with
  | block b parent => exact hgetD _ fun _ hu => hl.register hu
  | module m parent => exact hgetD _ fun _ hu => hl.registerModule hu

theorem hasModuleBlocks_ofRegistrations (rs : List Registration) :
    (ofRegistrations rs).HasModuleBlocks := by
  have hrun : ∀ l : Lineage, l.HasModuleBlocks →
      (rs.foldl Registration.apply l).HasModuleBlocks := by
    induction rs with
    | nil => exact fun l hl => hl
    | cons r rest ih => exact fun l hl => ih _ (hl.apply r)
  apply hrun
  simp [HasModuleBlocks]

-- ════════════════════════════════════════════════════════════════════════
-- Names
-- ════════════════════════════════════════════════════════════════════════

section Names

variable {l : Lineage} {b : RootBlock}

theorem IsChain.type_eq {key : Nat} {chain : List RootBlock} (h : l.IsChain key chain)
    (hl : l.HasModuleBlocks) : ∀ m ∈ chain, m.block.type = Block.moduleType := by
  induction h with
  | root _ => simp
  | child hparent _ ih => exact List.forall_mem_cons.mpr ⟨hl _ (Table.mem_of_find? hparent), ih⟩

theorem named_moduleName (hl : l.HasModuleBlocks) (ha : l.IsAcyclic) (b : RootBlock) :
    l.Named b (l.moduleName b) := by
  have hchain := ha.isChain_chain b
  rw [hchain.moduleName_eq]
  exact hchain.named (hchain.type_eq hl)

/-- Only the name of a block without an entry is empty. -/
theorem moduleName_eq_empty_iff (hl : l.HasModuleBlocks) (ha : l.IsAcyclic) (b : RootBlock) :
    l.moduleName b = "" ↔ l.parent? b = none := by
  have hchain := ha.isChain_chain b
  rw [hchain.moduleName_eq, joined_eq_empty_iff (hchain.type_eq hl)]
  generalize l.chain b = chain at hchain
  cases hchain with
  | root hnone => simp [parent?, hnone]
  | child hparent _ => simp [parent?, hparent]

/-- A block gives its module a name. -/
def Names (l : Lineage) (b : RootBlock) (name : String) : Prop :=
  l.parent? b ≠ none ∧ l.moduleName b = name

theorem mem_moduleNames_iff (hl : l.HasModuleBlocks) (ha : l.IsAcyclic) {m : Module}
    {name : String} : name ∈ l.moduleNames m ↔ ∃ b ∈ m.blocks, l.Names b name := by
  unfold moduleNames Names
  simp only [List.mem_eraseDups, List.mem_filter, List.mem_map, decide_eq_true_eq]
  constructor
  · rintro ⟨⟨b, hb, rfl⟩, hne⟩
    exact ⟨b, hb, mt (moduleName_eq_empty_iff hl ha b).mpr hne, rfl⟩
  · rintro ⟨b, hb, hentry, rfl⟩
    exact ⟨⟨b, hb, rfl⟩, mt (moduleName_eq_empty_iff hl ha b).mp hentry⟩

theorem nodup_moduleNames (l : Lineage) (m : Module) : (l.moduleNames m).Nodup :=
  Table.nodup_eraseDups _

theorem empty_notMem_moduleNames (l : Lineage) (m : Module) : "" ∉ l.moduleNames m := by
  simp [moduleNames]

end Names

-- ════════════════════════════════════════════════════════════════════════
-- Paths
-- ════════════════════════════════════════════════════════════════════════

theorem pairwise_mergeSort_le (ss : List String) : ss.mergeSort.Pairwise (· ≤ ·) := by
  have htrans : ∀ a b c : String, decide (a ≤ b) = true → decide (b ≤ c) = true →
      decide (a ≤ c) = true := by
    intro a b c hab hbc
    exact decide_eq_true (String.le_trans (of_decide_eq_true hab) (of_decide_eq_true hbc))
  have htotal : ∀ a b : String, (decide (a ≤ b) || decide (b ≤ a)) = true := by
    intro a b
    simpa using String.le_total a b
  exact (List.pairwise_mergeSort htrans htotal ss).imp of_decide_eq_true

theorem mergeSort_eq_of_perm {ss ts : List String} (h : ss.Perm ts) :
    ss.mergeSort = ts.mergeSort := by
  have hperm : ss.mergeSort.Perm ts.mergeSort :=
    (List.mergeSort_perm ss _).trans (h.trans (List.mergeSort_perm ts _).symm)
  apply List.Perm.eq_of_pairwise ?_ (pairwise_mergeSort_le ss) (pairwise_mergeSort_le ts) hperm
  intro a b _ _ hab hba
  exact String.le_antisymm hab hba

/-- Names that are all different stand in strictly increasing order once they are sorted. -/
theorem pairwise_mergeSort_lt {ss : List String} (h : ss.Nodup) :
    ss.mergeSort.Pairwise (· < ·) := by
  have hnodup : ss.mergeSort.Nodup := (List.mergeSort_perm ss _).nodup_iff.mpr h
  refine ((pairwise_mergeSort_le ss).and hnodup).imp ?_
  rintro a b ⟨hle, hne⟩
  exact String.not_le.mp fun hge => hne (String.le_antisymm hle hge)

section Paths

variable {l : Lineage} {m n : Module}

theorem modulePath_eq_ok_empty_iff : l.modulePath m = .ok "" ↔ l.moduleNames m = [] := by
  have hne := empty_notMem_moduleNames l m
  unfold modulePath
  rcases hnames : l.moduleNames m with _ | ⟨name, _ | ⟨other, rest⟩⟩
  · simp
  · rw [hnames, List.mem_singleton] at hne
    simp [Ne.symm hne]
  · simp

theorem modulePath_eq_ok_iff {name : String} (hname : name ≠ "") :
    l.modulePath m = .ok name ↔ l.moduleNames m = [name] := by
  unfold modulePath
  rcases l.moduleNames m with _ | ⟨first, _ | ⟨other, rest⟩⟩
  · simp [Ne.symm hname]
  · simp
  · simp

theorem modulePath_eq_error_iff {e : PrefixConflict} :
    l.modulePath m = .error e ↔
      2 ≤ (l.moduleNames m).length ∧ e = ⟨(l.moduleNames m).mergeSort⟩ := by
  unfold modulePath
  rcases l.moduleNames m with _ | ⟨name, _ | ⟨other, rest⟩⟩
  · simp
  · simp
  · simp [eq_comm]

/-- The path of a module depends only on which blocks it has, and so does the conflict in its
place. -/
theorem modulePath_eq_of_mem_iff (h : ∀ b, b ∈ m.blocks ↔ b ∈ n.blocks) :
    l.modulePath m = l.modulePath n := by
  have hperm : (l.moduleNames m).Perm (l.moduleNames n) := by
    apply (List.perm_ext_iff_of_nodup (nodup_moduleNames l m) (nodup_moduleNames l n)).mpr
    intro name
    simp [moduleNames, h]
  cases hn : l.modulePath n with
  | ok name =>
    by_cases hname : name = ""
    · rw [hname, modulePath_eq_ok_empty_iff] at hn ⊢
      rw [hn] at hperm
      exact List.perm_nil.mp hperm
    · rw [modulePath_eq_ok_iff hname] at hn ⊢
      rw [hn] at hperm
      exact List.perm_singleton.mp hperm
  | error e =>
    rw [modulePath_eq_error_iff] at hn ⊢
    rw [hperm.length_eq, mergeSort_eq_of_perm hperm]
    exact hn

end Paths

/-- How the names of the blocks of a module make up its path, in a lineage in which the recursion
for a name ends. -/
structure HasPathOf (l : Lineage) (m : Module) : Prop where
  named : ∀ b, l.Named b (l.moduleName b)
  name_eq_empty_iff : ∀ b, l.moduleName b = "" ↔ l.parent? b = none
  /-- The path is empty if no block of the module has an entry, and only then. -/
  path_eq_empty_iff : l.modulePath m = .ok "" ↔ ∀ b ∈ m.blocks, l.parent? b = none
  /-- Another path is the common name of the blocks that have entries. -/
  path_eq_iff : ∀ name, name ≠ "" → (l.modulePath m = .ok name ↔
    (∃ b ∈ m.blocks, l.parent? b ≠ none) ∧
      ∀ b ∈ m.blocks, l.parent? b ≠ none → l.moduleName b = name)
  conflict_iff : (∃ e, l.modulePath m = .error e) ↔
    ∃ b ∈ m.blocks, ∃ c ∈ m.blocks, l.parent? b ≠ none ∧ l.parent? c ≠ none ∧
      l.moduleName b ≠ l.moduleName c
  /-- A conflict reports the names of the blocks that have entries, each once and in order. -/
  names : ∀ e, l.modulePath m = .error e → e.names.Pairwise (· < ·) ∧
    ∀ name, name ∈ e.names ↔ ∃ b ∈ m.blocks, l.parent? b ≠ none ∧ l.moduleName b = name
  /-- Nothing else counts than which blocks there are. -/
  same : ∀ n : Module, (∀ b, b ∈ n.blocks ↔ b ∈ m.blocks) → l.modulePath n = l.modulePath m

section

variable {l : Lineage} (hl : l.HasModuleBlocks) (ha : l.IsAcyclic) (m : Module)

include hl ha

theorem modulePath_eq_empty_iff_forall :
    l.modulePath m = .ok "" ↔ ∀ b ∈ m.blocks, l.parent? b = none := by
  rw [modulePath_eq_ok_empty_iff, List.eq_nil_iff_forall_not_mem]
  simp only [mem_moduleNames_iff hl ha, Names]
  constructor
  · intro h b hb
    by_contra hentry
    exact h _ ⟨b, hb, hentry, rfl⟩
  · rintro h name ⟨b, hb, hentry, -⟩
    exact hentry (h b hb)

theorem modulePath_eq_ok_iff_forall {name : String} (hname : name ≠ "") :
    l.modulePath m = .ok name ↔ (∃ b ∈ m.blocks, l.parent? b ≠ none) ∧
      ∀ b ∈ m.blocks, l.parent? b ≠ none → l.moduleName b = name := by
  rw [modulePath_eq_ok_iff hname]
  constructor
  · intro h
    have hmem : ∀ s, (∃ b ∈ m.blocks, l.Names b s) ↔ s = name := by
      intro s
      rw [← mem_moduleNames_iff hl ha, h, List.mem_singleton]
    obtain ⟨b, hb, hentry, -⟩ := (hmem name).mpr rfl
    exact ⟨⟨b, hb, hentry⟩, fun c hc hentry => (hmem _).mp ⟨c, hc, hentry, rfl⟩⟩
  · rintro ⟨⟨b, hb, hentry⟩, hall⟩
    have hmem : ∀ s, s ∈ l.moduleNames m ↔ s ∈ [name] := by
      intro s
      rw [mem_moduleNames_iff hl ha, List.mem_singleton]
      constructor
      · rintro ⟨c, hc, hentry, rfl⟩
        exact hall c hc hentry
      · rintro rfl
        exact ⟨b, hb, hentry, hall b hb hentry⟩
    have hperm := (List.perm_ext_iff_of_nodup (nodup_moduleNames l m)
      (List.nodup_singleton name)).mpr hmem
    exact List.perm_singleton.mp hperm

theorem exists_modulePath_eq_error_iff :
    (∃ e, l.modulePath m = .error e) ↔
      ∃ b ∈ m.blocks, ∃ c ∈ m.blocks, l.parent? b ≠ none ∧ l.parent? c ≠ none ∧
        l.moduleName b ≠ l.moduleName c := by
  have hlength : (∃ e, l.modulePath m = .error e) ↔ 2 ≤ (l.moduleNames m).length := by
    simp only [modulePath_eq_error_iff]
    exact ⟨fun ⟨_, h, _⟩ => h, fun h => ⟨_, h, rfl⟩⟩
  rw [hlength]
  constructor
  · intro h
    obtain ⟨s, t, rest, hnames⟩ : ∃ s t rest, l.moduleNames m = s :: t :: rest := by
      match hnames : l.moduleNames m with
      | [] | [_] => simp [hnames] at h
      | s :: t :: rest => exact ⟨s, t, rest, rfl⟩
    have hnodup := nodup_moduleNames l m
    rw [hnames] at hnodup
    obtain ⟨b, hb, hbentry, rfl⟩ :=
      (mem_moduleNames_iff hl ha).mp (hnames ▸ List.mem_cons_self ..)
    obtain ⟨c, hc, hcentry, rfl⟩ :=
      (mem_moduleNames_iff hl ha).mp
        (hnames ▸ List.mem_cons_of_mem _ (List.mem_cons_self ..) : t ∈ l.moduleNames m)
    refine ⟨b, hb, c, hc, hbentry, hcentry, ?_⟩
    intro heq
    exact (List.nodup_cons.mp hnodup).1 (heq ▸ List.mem_cons_self ..)
  · rintro ⟨b, hb, c, hc, hbentry, hcentry, hne⟩
    have hsub : [l.moduleName b, l.moduleName c] ⊆ l.moduleNames m := by
      intro s hs
      rcases List.mem_cons.mp hs with rfl | hs
      · exact (mem_moduleNames_iff hl ha).mpr ⟨b, hb, hbentry, rfl⟩
      · obtain rfl := List.mem_singleton.mp hs
        exact (mem_moduleNames_iff hl ha).mpr ⟨c, hc, hcentry, rfl⟩
    have hnodup : [l.moduleName b, l.moduleName c].Nodup := by simpa using hne
    exact (List.subperm_of_subset hnodup hsub).length_le

end

/-- The path of a module follows from the names of its blocks in every acyclic lineage. -/
theorem hasPathOf_ofRegistrations (rs : List Registration) (m : Module)
    (h : (ofRegistrations rs).IsAcyclic) : (ofRegistrations rs).HasPathOf m := by
  have hl := hasModuleBlocks_ofRegistrations rs
  refine ⟨named_moduleName hl h, moduleName_eq_empty_iff hl h,
    modulePath_eq_empty_iff_forall hl h m, fun _ => modulePath_eq_ok_iff_forall hl h m,
    exists_modulePath_eq_error_iff hl h m, ?_,
    fun _ => modulePath_eq_of_mem_iff⟩
  intro e he
  obtain ⟨-, rfl⟩ := modulePath_eq_error_iff.mp he
  refine ⟨pairwise_mergeSort_lt (nodup_moduleNames _ m), ?_⟩
  intro name
  rw [List.mem_mergeSort, mem_moduleNames_iff hl h]
  rfl

namespace Disagreement

/-- A block of the given type and label. -/
def rootBlock (key : Nat) (type label : String) : RootBlock where
  key := key
  block := { type, labels := [label], range := ⟨"main.tf", 4, 9, by decide⟩ }

/-- A module calls another one, and each has an output below it. The last call fails. -/
def calls : List Registration :=
  [.block (rootBlock 1 "module" "lambda") (rootBlock 0 "module" "notify"),
   .module ⟨[rootBlock 2 "output" "a"]⟩ (rootBlock 1 "module" "lambda"),
   .block (rootBlock 3 "output" "b") (rootBlock 0 "module" "notify"),
   .block (rootBlock 4 "output" "c") (rootBlock 3 "output" "b")]

/-- A module of blocks of both modules and of the root module. -/
def mixed : Module where
  blocks := [rootBlock 2 "output" "a", rootBlock 4 "output" "c", rootBlock 3 "output" "b",
    rootBlock 2 "output" "a"]

/-- Blocks of two modules are in conflict, with a block of the root module between them. -/
theorem hasPathOf_mixed :
    (ofRegistrations calls).IsAcyclic ∧ (ofRegistrations calls).HasPathOf mixed ∧
      (ofRegistrations calls).modulePath mixed =
        .error ⟨["module.notify", "module.notify.module.lambda"]⟩ := by
  have hacyclic : (ofRegistrations calls).IsAcyclic := isAcyclic_of_key_lt (by decide +kernel)
  have hnames : (ofRegistrations calls).moduleNames mixed =
      ["module.notify.module.lambda", "module.notify"] := by decide +kernel
  have hsorted : ["module.notify.module.lambda", "module.notify"].mergeSort =
      ["module.notify", "module.notify.module.lambda"] :=
    (mergeSort_eq_of_perm (List.Perm.swap ..)).trans
      (List.mergeSort_of_pairwise (by decide))
  refine ⟨hacyclic, hasPathOf_ofRegistrations calls mixed hacyclic, ?_⟩
  rw [modulePath_eq_error_iff, hnames, hsorted]
  exact ⟨Nat.le_refl 2, rfl⟩

end Disagreement

end Lineage

end BlockDoc
