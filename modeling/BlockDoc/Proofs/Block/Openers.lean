import BlockDoc.Proofs.Block.Selection
import Mathlib.Algebra.GroupWithZero.Nat
import Mathlib.Data.Finset.Max
import Mathlib.Data.Fintype.Card
import Mathlib.Data.List.FinRange

/-!
# The rule of selection

Which children are kept can be told without going through them. Some of the proper children open a
range of lines: those that start at or after the end of the nearest opener before them. The others
stand on covered lines and are copies. All openers are kept, and a copy is kept as long as the
templates before it have announced more instances than there are copies up to it, whatever the
counter of a selection has been in between.

## Main definitions

* `Block.IsOpener` — the children that open a range of lines
* `Block.copies` — the proper children before a position that open none
* `Block.IsKept` — the rule
* `Block.FollowsRule` — what the rule says about the logical children of a block
-/

namespace BlockDoc

namespace Block

section Openers

variable (children : List Block)

/-- A proper child opens a range if it starts at or after the end of the nearest opener before it.
The first proper child opens one. -/
def IsOpener (j : Fin children.length) : Prop :=
  ¬(children.get j).IsTemplate ∧
    ∀ i : Fin children.length, (_ : i < j) → IsOpener i →
      (∀ k : Fin children.length, (_ : k < j) → i < k → ¬IsOpener k) →
        (children.get i).range.endLine ≤ (children.get j).range.startLine
termination_by j.val

/-- The nearest opener before a position. -/
structure IsNearestOpener (n : Nat) (i : Fin children.length) : Prop where
  lt : i.val < n
  opener : IsOpener children i
  last : ∀ k : Fin children.length, k.val < n → i < k → ¬IsOpener children k

/-- The end of the nearest opener before a position, and zero if there is none. -/
def coveredTo : Nat → Nat
  | 0 => 0
  | n + 1 =>
    match children[n]? with
    | none => coveredTo n
    | some c =>
      if ¬c.IsTemplate ∧ coveredTo n ≤ c.range.startLine then c.range.endLine else coveredTo n

variable {children}

theorem isOpener_iff_nearest {j : Fin children.length} :
    IsOpener children j ↔ ¬(children.get j).IsTemplate ∧
      ∀ i, IsNearestOpener children j i →
        (children.get i).range.endLine ≤ (children.get j).range.startLine := by
  rw [IsOpener]
  constructor
  · rintro ⟨hj, h⟩
    exact ⟨hj, fun i hi => h i hi.lt hi.opener hi.last⟩
  · rintro ⟨hj, h⟩
    exact ⟨hj, fun i hij hi hlast => h i ⟨hij, hi, hlast⟩⟩

theorem IsNearestOpener.unique {n : Nat} {i k : Fin children.length}
    (hi : IsNearestOpener children n i) (hk : IsNearestOpener children n k) : i = k := by
  rcases lt_trichotomy i k with h | h | h
  · exact absurd hk.opener (hi.last k hk.lt h)
  · exact h
  · exact absurd hi.opener (hk.last i hi.lt h)

theorem coveredTo_succ (j : Fin children.length) :
    coveredTo children (j + 1) =
      if ¬(children.get j).IsTemplate ∧ coveredTo children j ≤ (children.get j).range.startLine
      then (children.get j).range.endLine else coveredTo children j := by
  simp [coveredTo]

/-- What is covered before a position is told by the nearest opener. -/
def CoveredByNearest (children : List Block) (n : Nat) : Prop :=
  (coveredTo children n = 0 ∧ ∀ i, ¬IsNearestOpener children n i) ∨
    ∃ i, IsNearestOpener children n i ∧ coveredTo children n = (children.get i).range.endLine

theorem CoveredByNearest.isOpener_iff {j : Fin children.length}
    (h : CoveredByNearest children j) :
    IsOpener children j ↔
      ¬(children.get j).IsTemplate ∧ coveredTo children j ≤ (children.get j).range.startLine := by
  rw [isOpener_iff_nearest]
  rcases h with ⟨h0, hnone⟩ | ⟨i, hi, he⟩
  · have hlines : coveredTo children j ≤ (children.get j).range.startLine := by omega
    exact and_congr_right fun _ => ⟨fun _ => hlines, fun _ i hi => absurd hi (hnone i)⟩
  · refine and_congr_right fun _ => ⟨fun h => ?_, fun h k hk => ?_⟩
    · rw [he]
      exact h i hi
    · rw [hk.unique hi, ← he]
      exact h

theorem coveredByNearest (n : Nat) (hn : n ≤ children.length) : CoveredByNearest children n := by
  induction n with
  | zero => exact .inl ⟨rfl, fun i hi => absurd hi.lt (Nat.not_lt_zero _)⟩
  | succ n ih =>
    let j : Fin children.length := ⟨n, hn⟩
    have hj := ih (Nat.le_of_succ_le hn)
    have hiff := CoveredByNearest.isOpener_iff (j := j) hj
    have hsucc := coveredTo_succ j
    by_cases hopen : IsOpener children j
    · rw [if_pos (hiff.mp hopen)] at hsucc
      refine .inr ⟨j, ⟨Nat.lt_succ_self n, hopen, fun k hk hjk => ?_⟩, hsucc⟩
      have : n < k.val := hjk
      omega
    · rw [if_neg (mt hiff.mpr hopen)] at hsucc
      -- A child that opens nothing leaves the nearest opener as it was.
      have hsame : ∀ i, IsNearestOpener children (n + 1) i ↔ IsNearestOpener children n i := by
        intro i
        constructor
        · intro hi
          have hne : i ≠ j := fun h => hopen (h ▸ hi.opener)
          have hval : i.val ≠ n := fun h => hne (Fin.ext h)
          have hlt := hi.lt
          exact ⟨by omega, hi.opener, fun k hk => hi.last k (by omega)⟩
        · intro hi
          refine ⟨Nat.lt_succ_of_lt hi.lt, hi.opener, fun k hk hik => ?_⟩
          rcases Nat.lt_succ_iff_lt_or_eq.mp hk with hk | hk
          · exact hi.last k hk hik
          · obtain rfl : k = j := Fin.ext hk
            exact hopen
      unfold CoveredByNearest
      simp only [hsame]
      rw [hsucc]
      exact hj

/-- A proper child opens a range if it starts where nothing is covered any more. -/
theorem isOpener_iff {j : Fin children.length} :
    IsOpener children j ↔
      ¬(children.get j).IsTemplate ∧ coveredTo children j ≤ (children.get j).range.startLine :=
  (coveredByNearest j (Nat.le_of_lt j.isLt)).isOpener_iff

instance (j : Fin children.length) : Decidable (IsOpener children j) :=
  decidable_of_iff _ isOpener_iff.symm

theorem coveredTo_le_succ (n : Nat) : coveredTo children n ≤ coveredTo children (n + 1) := by
  rw [coveredTo]
  split
  · exact le_rfl
  · next c _ =>
    split
    · next h =>
      have hlines := c.range.startLine_le_endLine
      omega
    · exact le_rfl

/-- An opener starts at or after the end of every opener before it, since no range ends before it
starts. -/
theorem IsOpener.endLine_le {i j : Fin children.length} (hi : IsOpener children i)
    (hj : IsOpener children j) (hij : i < j) :
    (children.get i).range.endLine ≤ (children.get j).range.startLine := by
  have hmono : Monotone (coveredTo children) := monotone_nat_of_le_succ coveredTo_le_succ
  calc (children.get i).range.endLine
      = coveredTo children (i + 1) := by rw [coveredTo_succ, if_pos (isOpener_iff.mp hi)]
    _ ≤ coveredTo children j := hmono hij
    _ ≤ (children.get j).range.startLine := (isOpener_iff.mp hj).2

end Openers

-- ════════════════════════════════════════════════════════════════════════
-- The rule
-- ════════════════════════════════════════════════════════════════════════

section Rule

variable (children : List Block)

/-- The number of instances that the templates before a position announce. -/
def announcedBefore (n : Nat) : Nat :=
  ((children.take n).map announced).sum

/-- The positions before `n` of the proper children that open no range. -/
def copies (n : Nat) : Finset (Fin children.length) :=
  {i | i.val < n ∧ ¬(children.get i).IsTemplate ∧ ¬IsOpener children i}

/-- Whether a child is kept: an opener always, and a copy if more instances have been announced
before it than there are copies up to it. -/
def IsKept (j : Fin children.length) : Prop :=
  ¬(children.get j).IsTemplate ∧
    (IsOpener children j ∨ (copies children (j + 1)).card < announcedBefore children j)

instance (j : Fin children.length) : Decidable (IsKept children j) :=
  inferInstanceAs (Decidable (_ ∧ _))

/-- The state of a selection before a position, told from the children before it. -/
def stateBefore (n : Nat) : Selection :=
  ⟨announcedBefore children n - (copies children n).card, coveredTo children n⟩

variable {children}

theorem announcedBefore_succ (j : Fin children.length) :
    announcedBefore children (j + 1) = announcedBefore children j + (children.get j).announced := by
  have htake : children.take (j + 1) = children.take j ++ [children.get j] := by
    rw [List.take_add_one, List.getElem?_eq_getElem j.isLt]
    rfl
  rw [announcedBefore, htake, List.map_append, List.sum_append, List.map_singleton,
    List.sum_singleton, announcedBefore]

theorem mem_copies {n : Nat} {i : Fin children.length} :
    i ∈ copies children n ↔ i.val < n ∧ ¬(children.get i).IsTemplate ∧ ¬IsOpener children i := by
  simp [copies]

theorem card_copies_succ_of_copy {j : Fin children.length} (hj : ¬(children.get j).IsTemplate)
    (ho : ¬IsOpener children j) :
    (copies children (j + 1)).card = (copies children j).card + 1 := by
  have hinsert : copies children (j + 1) = insert j (copies children j) := by
    ext i
    rw [Finset.mem_insert, mem_copies, mem_copies]
    constructor
    · rintro ⟨hlt, hi⟩
      rcases Nat.lt_succ_iff_lt_or_eq.mp hlt with hlt | heq
      · exact .inr ⟨hlt, hi⟩
      · exact .inl (Fin.ext heq)
    · rintro (rfl | ⟨hlt, hi⟩)
      · exact ⟨Nat.lt_succ_self _, hj, ho⟩
      · exact ⟨Nat.lt_succ_of_lt hlt, hi⟩
  rw [hinsert, Finset.card_insert_of_notMem]
  intro h
  exact Nat.lt_irrefl _ (mem_copies.mp h).1

theorem copies_succ_of_not_copy {j : Fin children.length}
    (hj : (children.get j).IsTemplate ∨ IsOpener children j) :
    copies children (j + 1) = copies children j := by
  ext i
  rw [mem_copies, mem_copies]
  refine and_congr_left fun ⟨hi, ho⟩ => ?_
  have hne : i ≠ j := by
    rintro rfl
    exact hj.elim hi ho
  have hval : i.val ≠ j.val := fun h => hne (Fin.ext h)
  omega

/-- One step of a selection keeps a child according to the rule, and leads from the state before the
child to the state after it. -/
theorem step_stateBefore (j : Fin children.length) :
    ((stateBefore children j).step (children.get j)).result =
      (decide (IsKept children j), stateBefore children (j + 1)) := by
  have hannounced := announcedBefore_succ j
  have hcovered := coveredTo_succ j
  by_cases hj : (children.get j).IsTemplate
  · have hkept : ¬IsKept children j := fun h => h.1 hj
    rw [Selection.step_template _ hj, decide_eq_false hkept]
    rw [if_neg fun h => h.1 hj] at hcovered
    simp only [stateBefore, hannounced, hcovered, copies_succ_of_not_copy (.inl hj)]
    congr 2
    omega
  rw [announced_of_not_isTemplate hj] at hannounced
  by_cases ho : IsOpener children j
  · have hkept : IsKept children j := ⟨hj, .inl ho⟩
    have hstart := isOpener_iff.mp ho
    rw [Selection.step_opener hj hstart.2, decide_eq_true hkept]
    rw [if_pos hstart] at hcovered
    simp only [stateBefore, hannounced, hcovered, copies_succ_of_not_copy (.inr ho), Nat.add_zero]
  · have hstart : (children.get j).range.startLine < coveredTo children j :=
      Nat.not_le.mp fun h => ho (isOpener_iff.mpr ⟨hj, h⟩)
    have hcard := card_copies_succ_of_copy hj ho
    have hkept : IsKept children j ↔
        0 < (announcedBefore children j : Int) - (copies children j).card - 1 := by
      unfold IsKept
      rw [hcard]
      constructor
      · rintro ⟨-, h | h⟩
        · exact absurd h ho
        · omega
      · intro h
        exact ⟨hj, .inr (by omega)⟩
    rw [Selection.step_copy hj hstart]
    rw [if_neg (mt isOpener_iff.mpr ho)] at hcovered
    simp only [stateBefore, hannounced, hcovered, hcard, hkept]
    congr 2
    omega

/-- From the state before a position, the rest of the children are kept according to the rule. -/
theorem selectFrom_stateBefore (children : List Block) (n : Nat) :
    (selectFrom (stateBefore children n) (children.drop n)).result =
      ((List.finRange children.length).drop n).map fun j => decide (IsKept children j) := by
  by_cases hn : n < children.length
  · have hstep := step_stateBefore (⟨n, hn⟩ : Fin children.length)
    have hrest := selectFrom_stateBefore children (n + 1)
    have hrange : n < (List.finRange children.length).length := by simpa using hn
    rw [List.drop_eq_getElem_cons hn, List.drop_eq_getElem_cons hrange, selectFrom_cons_result,
      List.map_cons, List.getElem_finRange]
    refine congrArg₂ List.cons (congrArg Prod.fst hstep) ?_
    rw [← hrest]
    exact congrArg (fun s => (selectFrom s _).result) (congrArg Prod.snd hstep)
  · rw [List.drop_eq_nil_of_le (Nat.not_lt.mp hn), List.drop_eq_nil_of_le (by simpa using hn)]
    rfl
termination_by children.length - n

theorem stateBefore_zero : stateBefore children 0 = .start := by
  have hcopies : copies children 0 = ∅ := by
    ext i
    simp [mem_copies]
  rw [stateBefore, hcopies]
  rfl

theorem announcedBefore_le_sum (children : List Block) (n : Nat) :
    announcedBefore children n ≤ (children.map announced).sum := by
  have hsplit : (children.map announced).sum =
      announcedBefore children n + ((children.drop n).map announced).sum := by
    rw [announcedBefore, ← List.sum_append, ← List.map_append, List.take_append_drop]
  omega

/-- The last copy that is kept bounds their number: more instances have been announced before it
than there are copies up to it. -/
theorem card_kept_copies_le (kept : Finset (Fin children.length))
    (h : ∀ j ∈ kept, IsKept children j ∧ ¬IsOpener children j) :
    kept.card ≤ (children.map announced).sum - 1 := by
  rcases kept.eq_empty_or_nonempty with rfl | hne
  · simp
  · let j := kept.max' hne
    obtain ⟨⟨-, hopener | hfew⟩, hj⟩ := h j (kept.max'_mem hne)
    · exact absurd hopener hj
    have hsub : kept ⊆ copies children (j + 1) := by
      intro i hi
      have hij : i ≤ j := kept.le_max' i hi
      exact mem_copies.mpr ⟨Nat.lt_succ_of_le hij, (h i hi).1.1, (h i hi).2⟩
    have hcard := Finset.card_le_card hsub
    have hsum := announcedBefore_le_sum children j
    omega

end Rule

/-- What the rule says about the logical children of a block. -/
structure FollowsRule (b : Block) : Prop where
  /-- There is one mark for each child, and the marks are those that the rule gives. -/
  marks : b.selection.result =
    (List.finRange b.children.length).map fun j => decide (IsKept b.children j)
  /-- The logical children are the children at the kept positions, each once and in order. -/
  kept : b.logicalChildren.result =
    ((List.finRange b.children.length).filter fun j => IsKept b.children j).map
      fun j => b.children.get j
  /-- The ranges of the openers follow one another. -/
  apart : ∀ i j, IsOpener b.children i → IsOpener b.children j → i < j →
    (b.children.get i).range.endLine ≤ (b.children.get j).range.startLine
  /-- Fewer copies are kept than instances are announced, and none if none are announced. -/
  few : (Finset.univ.filter fun j => IsKept b.children j ∧ ¬IsOpener b.children j).card ≤
    (b.children.map announced).sum - 1

theorem marked_finRange_map {α : Type} (xs : List α) (p : Fin xs.length → Bool) :
    marked ((List.finRange xs.length).map p) xs =
      ((List.finRange xs.length).filter p).map fun j => xs.get j := by
  have hxs : (List.finRange xs.length).map (fun j => xs.get j) = xs := by simp
  have hmap := marked_map_right (fun j : Fin xs.length => xs.get j)
    ((List.finRange xs.length).map p) (List.finRange xs.length)
  rwa [hxs, marked_map] at hmap

/-- Whatever the children of a block are, the logical ones are those that the rule keeps. -/
theorem logicalChildren_followsRule (b : Block) : b.FollowsRule := by
  have hmarks := selectFrom_stateBefore b.children 0
  rw [stateBefore_zero, List.drop_zero, List.drop_zero] at hmarks
  refine ⟨hmarks, ?_, fun i j hi hj hij => hi.endLine_le hj hij, card_kept_copies_le _ ?_⟩
  · rw [logicalChildren_result, hmarks, marked_finRange_map]
  · intro j hj
    exact (Finset.mem_filter.mp hj).2

end Block

end BlockDoc
