import BlockDoc.Proofs.Block.Selection
import Mathlib.Algebra.BigOperators.Group.Finset.Piecewise
import Mathlib.Algebra.Order.BigOperators.Group.Finset
import Mathlib.Data.Fintype.Basic

/-!
# Children in groups

An evaluator that expands templates lists the children of a block in groups: a child of its own, or
all instances of one template. One counter serves all templates of a block, is not charged for the
child that opens a group, nor for groups of one line, and is carried from group to group. Still no
instance is lost, wherever the templates stand before their groups.

The invariant bounds the counter from below by what is owed to the templates that have been met: as
many instances as they announce, less those that have been charged to them.

## Main definitions

* `Block.IsGrouping` — the numbers of groups at the positions of children
* `Block.owed` — the part of the counter that is owed to a template
* `Block.Covers` — the invariant
-/

namespace BlockDoc

namespace Block

/-- The positions of the proper children in the group of a number. -/
def members {children : List Block} (group : Fin children.length → Nat) (a : Nat) :
    Finset (Fin children.length) :=
  {i | ¬children[i].IsTemplate ∧ group i = a}

/-- The children of a block in groups. Each position has the number of a group: that of a proper
child the group that the child is in, and that of a template the group into which it expands. A
template that announces nothing has no group, and its number is of no account. -/
structure IsGrouping (children : List Block) (group : Fin children.length → Nat) : Prop where
  /-- The groups follow one another. -/
  ordered : ∀ i j, ¬children[i].IsTemplate → ¬children[j].IsTemplate → i ≤ j → group i ≤ group j
  /-- The members of a group stand on the same lines. -/
  sameLines : ∀ i j, ¬children[i].IsTemplate → ¬children[j].IsTemplate → group i = group j →
    children[i].range.startLine = children[j].range.startLine ∧
      children[i].range.endLine = children[j].range.endLine
  /-- A group starts at or after the end of the group before it. -/
  apart : ∀ i j, ¬children[i].IsTemplate → ¬children[j].IsTemplate → i < j →
    (∀ k, ¬children[k].IsTemplate → i < k → j ≤ k) → group i ≠ group j →
    children[i].range.endLine ≤ children[j].range.startLine
  /-- A group of more than one child is that of a template. -/
  expands : ∀ i j, ¬children[i].IsTemplate → ¬children[j].IsTemplate → group i = group j → i ≠ j →
    ∃ t, 0 < children[t].announced ∧ group t = group i
  /-- A template has as many instances as it announces. -/
  size : ∀ t, 0 < children[t].announced → (members group (group t)).card = children[t].announced
  /-- A template stands before its instances. -/
  before : ∀ t i, 0 < children[t].announced → ¬children[i].IsTemplate → group i = group t → t < i
  /-- Two templates do not share a group. -/
  single : ∀ t u, 0 < children[t].announced → 0 < children[u].announced → group t = group u → t = u

section Counter

variable {children : List Block} (group : Fin children.length → Nat)

/-- The number of proper children before position `j` in the group of a number. -/
def seen (a j : Nat) : Nat :=
  ((members group a).filter fun i => i.val < j).card

/-- What is owed to the template at `t` when the children before position `j` are done: nothing
before the template, then what it announces, less the instances that followed on its first one. -/
def owed (j : Nat) (t : Fin children.length) : Nat :=
  if t.val < j then children[t].announced - (seen group (group t) j - 1) else 0

theorem mem_members {a : Nat} {i : Fin children.length} :
    i ∈ members group a ↔ ¬children[i].IsTemplate ∧ group i = a := by
  simp [members]

theorem seen_mono (a j : Nat) : seen group a j ≤ seen group a (j + 1) := by
  apply Finset.card_le_card
  intro i hi
  rw [Finset.mem_filter] at hi ⊢
  exact ⟨hi.1, by omega⟩

theorem seen_le_card (a j : Nat) : seen group a j ≤ (members group a).card :=
  Finset.card_le_card (Finset.filter_subset _ _)

theorem seen_pos {a j : Nat} {i : Fin children.length} (h : ¬children[i].IsTemplate)
    (ha : group i = a) (hi : i.val < j) : 0 < seen group a j :=
  Finset.card_pos.mpr ⟨i, Finset.mem_filter.mpr ⟨(mem_members group).mpr ⟨h, ha⟩, hi⟩⟩

/-- A proper child adds one to its group. -/
theorem seen_succ (j : Fin children.length) (h : ¬children[j].IsTemplate) :
    seen group (group j) (j + 1) = seen group (group j) j + 1 := by
  have hset : (members group (group j)).filter (fun i => i.val < j.val + 1) =
      insert j ((members group (group j)).filter fun i => i.val < j.val) := by
    ext i
    simp only [Finset.mem_filter, Finset.mem_insert, mem_members]
    constructor
    · rintro ⟨hi, hlt⟩
      rcases Nat.lt_succ_iff_lt_or_eq.mp hlt with hlt | heq
      · exact Or.inr ⟨hi, hlt⟩
      · exact Or.inl (Fin.ext heq)
    · rintro (rfl | ⟨hi, hlt⟩)
      · exact ⟨⟨h, rfl⟩, Nat.lt_succ_self _⟩
      · exact ⟨hi, Nat.lt_succ_of_lt hlt⟩
  rw [seen, hset, Finset.card_insert_of_notMem (by simp)]
  rfl

/-- What is owed to a template only grows at the template itself. -/
theorem owed_succ_le (j t : Fin children.length) :
    owed group (j + 1) t ≤ owed group j t + if t = j then children[j].announced else 0 := by
  have hmono := seen_mono group (group t) j
  unfold owed
  by_cases htj : t = j
  · subst htj
    simp only [if_true]
    split <;> split <;> omega
  · have hne : t.val ≠ j.val := fun h => htj (Fin.ext h)
    simp only [htj, if_false]
    split <;> split <;> omega

end Counter

/-- The state of a selection when the children before position `j` are done: the furthest line is
the end of the last proper child, and the counter covers all that is owed. -/
structure Covers {children : List Block} (group : Fin children.length → Nat) (j : Nat)
    (s : Selection) : Prop where
  furthest : s.furthest = 0 ∨ ∃ i : Fin children.length, ¬children[i].IsTemplate ∧ i.val < j ∧
    (∀ k : Fin children.length, ¬children[k].IsTemplate → i < k → j ≤ k.val) ∧
    s.furthest = children[i].range.endLine
  expected : ((∑ t, owed group j t : Nat) : Int) ≤ s.expected

section Run

variable {children : List Block} {group : Fin children.length → Nat}

theorem covers_start : Covers group 0 .start where
  furthest := Or.inl rfl
  expected := by simp [owed, Selection.start]

/-- A template adds to the counter at least what comes to be owed. -/
theorem Covers.template {j : Fin children.length} {s : Selection} (h : Covers group j s)
    (hj : children[j].IsTemplate) :
    Covers group (j + 1) ⟨s.expected + children[j].announced, s.furthest⟩ where
  furthest := by
    rcases h.furthest with h0 | ⟨i, hi, hlt, hlast, he⟩
    · exact Or.inl h0
    · refine Or.inr ⟨i, hi, Nat.lt_succ_of_lt hlt, ?_, he⟩
      intro k hk hik
      have hne : k.val ≠ j.val := fun hkj => hk ((Fin.ext hkj : k = j) ▸ hj)
      have := hlast k hk hik
      omega
  expected := by
    have hsum : ∑ t, owed group (j + 1) t ≤ (∑ t, owed group j t) + children[j].announced := by
      calc ∑ t, owed group (j + 1) t
          ≤ ∑ t, (owed group j t + if t = j then children[j].announced else 0) :=
            Finset.sum_le_sum fun t _ => owed_succ_le group j t
        _ = (∑ t, owed group j t) + children[j].announced := by
            rw [Finset.sum_add_distrib, Finset.sum_ite_eq' Finset.univ j]
            simp
    have := h.expected
    show ((∑ t, owed group (j + 1) t : Nat) : Int) ≤ s.expected + children[j].announced
    omega

/-- A child that opens a range leaves the counter as it is, and nothing more comes to be owed. -/
theorem Covers.opener {j : Fin children.length} {s : Selection} (h : Covers group j s)
    (hj : ¬children[j].IsTemplate) :
    Covers group (j + 1) ⟨s.expected, children[j].range.endLine⟩ where
  furthest := Or.inr ⟨j, hj, Nat.lt_succ_self _, fun _ _ hjk => hjk, rfl⟩
  expected := by
    have hsum : ∑ t, owed group (j + 1) t ≤ ∑ t, owed group j t := by
      refine Finset.sum_le_sum fun t _ => ?_
      have := owed_succ_le group j t
      rw [announced_of_not_isTemplate hj, ite_self] at this
      exact this
    have := h.expected
    show ((∑ t, owed group (j + 1) t : Nat) : Int) ≤ s.expected
    omega

/-- A child on covered lines is not the first of its group, and the child before it ends on the
same line. -/
theorem Covers.follows (hg : IsGrouping children group) {j : Fin children.length} {s : Selection}
    (h : Covers group j s) (hj : ¬children[j].IsTemplate)
    (hs : children[j].range.startLine < s.furthest) :
    ∃ i : Fin children.length, ¬children[i].IsTemplate ∧ i < j ∧ group i = group j ∧
      s.furthest = children[j].range.endLine := by
  rcases h.furthest with h0 | ⟨i, hi, hlt, hlast, he⟩
  · omega
  · have hgroup : group i = group j := by
      by_contra hne
      have := hg.apart i j hi hj hlt hlast hne
      omega
    exact ⟨i, hi, hlt, hgroup, he.trans (hg.sameLines i j hi hj hgroup).2⟩

/-- A child on covered lines is paid for by the template of its group, and at least one instance is
owed to that template afterwards. -/
theorem owed_copy (hg : IsGrouping children group) {i j : Fin children.length}
    (hi : ¬children[i].IsTemplate) (hj : ¬children[j].IsTemplate) (hij : i < j)
    (hgroup : group i = group j) :
    ∃ t, owed group (j + 1) t < owed group j t ∧ 0 < owed group (j + 1) t := by
  obtain ⟨t, ht, htg⟩ := hg.expands i j hi hj hgroup (Fin.ne_of_lt hij)
  have hti : t < i := hg.before t i ht hi htg.symm
  have htj : t.val < j.val := lt_trans hti hij
  have hpos : 0 < seen group (group t) j := seen_pos group hi htg.symm hij
  have hsucc : seen group (group t) (j + 1) = seen group (group t) j + 1 := by
    rw [htg, hgroup]
    exact seen_succ group j hj
  have hle : seen group (group t) (j + 1) ≤ children[t].announced :=
    hg.size t ht ▸ seen_le_card group (group t) (j + 1)
  refine ⟨t, ?_, ?_⟩ <;> unfold owed
  · rw [if_pos (Nat.lt_succ_of_lt htj), if_pos htj]
    omega
  · rw [if_pos (Nat.lt_succ_of_lt htj)]
    omega

/-- A child on covered lines is charged to the counter, which still covers what is owed and is
positive. -/
theorem Covers.copy (hg : IsGrouping children group) {j : Fin children.length} {s : Selection}
    (h : Covers group j s) (hj : ¬children[j].IsTemplate)
    (hs : children[j].range.startLine < s.furthest) :
    0 < s.expected - 1 ∧ Covers group (j + 1) ⟨s.expected - 1, s.furthest⟩ := by
  obtain ⟨i, hi, hij, hgroup, he⟩ := h.follows hg hj hs
  obtain ⟨t, hlt, hpos⟩ := owed_copy hg hi hj hij hgroup
  have hsum : ∑ t, owed group (j + 1) t < ∑ t, owed group j t := by
    refine Finset.sum_lt_sum (fun t _ => ?_) ⟨t, Finset.mem_univ t, hlt⟩
    have := owed_succ_le group j t
    rw [announced_of_not_isTemplate hj, ite_self] at this
    exact this
  have hone : owed group (j + 1) t ≤ ∑ t, owed group (j + 1) t :=
    Finset.single_le_sum (fun _ _ => Nat.zero_le _) (Finset.mem_univ t)
  have hexp := h.expected
  refine ⟨by omega, Or.inr ⟨j, hj, Nat.lt_succ_self _, fun _ _ hjk => hjk, he⟩, ?_⟩
  show ((∑ t, owed group (j + 1) t : Nat) : Int) ≤ s.expected - 1
  omega

/-- One step keeps a child if and only if it is a proper one, and preserves the invariant. -/
theorem Covers.step (hg : IsGrouping children group) {j : Fin children.length} {s : Selection}
    (h : Covers group j s) :
    (s.step children[j]).result.1 = decide (¬children[j].IsTemplate) ∧
      Covers group (j + 1) (s.step children[j]).result.2 := by
  by_cases hj : children[j].IsTemplate
  · rw [Selection.step_template s hj]
    exact ⟨(decide_eq_false (not_not_intro hj)).symm, h.template hj⟩
  · by_cases hs : s.furthest ≤ children[j].range.startLine
    · rw [Selection.step_opener hj hs]
      exact ⟨(decide_eq_true hj).symm, h.opener hj⟩
    · have hs' : children[j].range.startLine < s.furthest := Nat.not_le.mp hs
      obtain ⟨hpos, hcov⟩ := h.copy hg hj hs'
      rw [Selection.step_copy hj hs']
      exact ⟨(decide_eq_true hpos).trans (decide_eq_true hj).symm, hcov⟩

/-- From a state that covers what is owed, all proper children among the rest are kept. -/
theorem selectFrom_of_covers (hg : IsGrouping children group) (j : Nat) (s : Selection)
    (h : Covers group j s) :
    (selectFrom s (children.drop j)).result =
      (children.drop j).map fun c => decide (¬c.IsTemplate) := by
  by_cases hj : j < children.length
  · obtain ⟨hkept, hcov⟩ := Covers.step hg (j := ⟨j, hj⟩) h
    rw [List.drop_eq_getElem_cons hj, selectFrom_cons_result, List.map_cons]
    exact congrArg₂ List.cons hkept (selectFrom_of_covers hg (j + 1) _ hcov)
  · rw [List.drop_eq_nil_of_le (Nat.not_lt.mp hj)]
    rfl
termination_by children.length - j

end Run

/-- If the children of a block are in groups, each of them a child of its own or all the instances
of one template, then no child is lost: the logical children are all that are no templates. -/
theorem logicalChildren_of_isGrouping (b : Block) (group : Fin b.children.length → Nat)
    (hg : IsGrouping b.children group) :
    b.logicalChildren.result = b.children.filter fun c => ¬c.IsTemplate := by
  have h := selectFrom_of_covers hg 0 .start covers_start
  rw [List.drop_zero] at h
  rw [logicalChildren_result, h, marked_map]

/-- A template that announces instances of the given number. -/
def templateOf (n startLine endLine : Nat) (h : startLine ≤ endLine := by decide) : Block where
  type := dynamicType
  attributes :=
    [{ name := "for_each", value := .sequence .tuple (some (List.replicate n default)) }]
  range := ⟨"main.tf", startLine, endLine, h⟩

/-- A child without contents on the given lines. -/
def bareChild (type : String) (startLine endLine : Nat) (h : startLine ≤ endLine := by decide) :
    Block where
  type := type
  range := ⟨"main.tf", startLine, endLine, h⟩

/-- A block with a child of its own, two templates ahead of the instances of both, a template that
announces nothing among the instances, and a template whose instances stand on one line. -/
def interleaved : Block where
  type := "resource"
  range := ⟨"main.tf", 1, 20, by decide⟩
  children :=
    [bareChild "egress" 2 3, templateOf 2 4 8, templateOf 2 9 12, bareChild "ingress" 5 7,
      templateOf 0 7 7, bareChild "ingress" 5 7, bareChild "ingress" 10 11,
      bareChild "ingress" 10 11, templateOf 2 14 16, bareChild "tag" 15 15, bareChild "tag" 15 15]

/-- The numbers of the groups of `interleaved`. -/
def interleavedGroup : Fin interleaved.children.length → Nat :=
  fun i => [0, 1, 2, 1, 0, 1, 2, 2, 3, 3, 3].getD i 0

/-- The children of `interleaved` are in groups, so all seven that are no templates are kept. -/
theorem logicalChildren_interleaved :
    IsGrouping interleaved.children interleavedGroup ∧
      interleaved.logicalChildren.result = interleaved.children.filter fun c => ¬c.IsTemplate := by
  have hg : IsGrouping interleaved.children interleavedGroup := by
    constructor <;> decide +kernel
  exact ⟨hg, logicalChildren_of_isGrouping interleaved interleavedGroup hg⟩

end Block

end BlockDoc
