import BlockDoc.Proofs.Table
import BlockDoc.Tree.Parent

/-!
# Chains of parents

A table of parents in which no way comes back to a position on it has only ways that end. The search
for such a way starts at the positions with a parent, in the order of the entries, and takes out
each entry that it has used; a way is not cut short by that before it comes back to its position.

## Main definitions

* `ParentTable.Ends` — the way from a position to its parent, the parent of that, and so on ends
-/

namespace BlockDoc

namespace ParentTable

/-- The way from a position to its parent, the parent of that, and so on ends at a position without
a parent. -/
inductive Ends (parents : ParentTable) : Nat → Prop
  | root {position : Nat} : Table.find? parents position = none → Ends parents position
  | child {position : Nat} {parent : ParentRef} :
    Table.find? parents position = some parent → Ends parents parent.module →
      Ends parents position

/-- A way that does not come back to a position on it ends. Of the entries, at most those of the
positions seen so far have been taken out. -/
theorem ends_of_climb {parents unused : ParentTable} {seen : List Nat} {position : Nat}
    (h : climb unused seen position = none)
    (hunused : ∀ q ∉ seen, Table.find? unused q = Table.find? parents q) :
    Ends parents position := by
  induction unused, seen, position using climb.induct with
  | case1 unused seen position hseen =>
    rw [climb, if_pos hseen] at h
    cases h
  | case2 unused seen position hseen hnone =>
    rw [hunused position hseen] at hnone
    exact .root hnone
  | case3 unused seen position hseen parent hparent ih =>
    have hfind : Table.find? parents position = some parent := by
      rw [← hunused position hseen]
      exact hparent
    rw [climb, if_neg hseen, hparent] at h
    refine .child hfind (ih h ?_)
    intro q hq
    rw [List.mem_append, List.mem_singleton, not_or] at hq
    rw [Table.find?_remove_of_ne unused (Ne.symm hq.2)]
    exact hunused q hq.1

/-- Without a way that comes back to a position on it, the ways from all positions end. -/
theorem ends_of_cycle?_eq_none {parents : ParentTable} (h : cycle? parents = none)
    (position : Nat) : Ends parents position := by
  cases hfind : Table.find? parents position with
  | none => exact .root hfind
  | some parent =>
    have hclimb : climb parents [] position = none :=
      List.findSome?_eq_none_iff.mp h (position, parent) (Table.mem_of_find? hfind)
    exact ends_of_climb hclimb fun _ _ => rfl

end ParentTable

end BlockDoc
