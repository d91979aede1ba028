import BlockDoc.Block.Children

/-!
# Selection of children, step by step

What one step of the selection does to a child, in three cases: a template, a child that opens a
new range of lines, and a child that starts on lines already covered. Everything about the kept
children is derived from these cases.
-/

namespace BlockDoc

namespace Block

/-- A template. All other children are proper ones. -/
abbrev IsTemplate (c : Block) : Prop := c.type = dynamicType

/-- The number of instances that a child announces: those of a template. Other children announce
none. -/
def announced (c : Block) : Nat :=
  if c.IsTemplate then c.forEachCount.result else 0

theorem announced_of_isTemplate {c : Block} (h : c.IsTemplate) :
    c.announced = c.forEachCount.result :=
  if_pos h

theorem announced_of_not_isTemplate {c : Block} (h : ¬c.IsTemplate) : c.announced = 0 :=
  if_neg h

-- ════════════════════════════════════════════════════════════════════════
-- One step
-- ════════════════════════════════════════════════════════════════════════

/-- A template is dropped, and what it announces is expected. -/
theorem Selection.step_template (s : Selection) {c : Block} (h : c.IsTemplate) :
    (s.step c).result = (false, ⟨s.expected + c.announced, s.furthest⟩) := by
  rw [announced_of_isTemplate h]
  simp [Selection.step, if_pos h]

/-- A child that starts at or after the furthest line is kept, and its end is the furthest line. -/
theorem Selection.step_opener {s : Selection} {c : Block} (h : ¬c.IsTemplate)
    (hs : s.furthest ≤ c.range.startLine) :
    (s.step c).result = (true, ⟨s.expected, c.range.endLine⟩) := by
  simp [Selection.step, if_neg h, if_pos hs]

/-- A child that starts before the furthest line is charged to the expected instances, and kept as
long as more than one is expected. -/
theorem Selection.step_copy {s : Selection} {c : Block} (h : ¬c.IsTemplate)
    (hs : c.range.startLine < s.furthest) :
    (s.step c).result = (decide (0 < s.expected - 1), ⟨s.expected - 1, s.furthest⟩) := by
  simp [Selection.step, if_neg h, if_neg (Nat.not_le.mpr hs)]

-- ════════════════════════════════════════════════════════════════════════
-- All steps
-- ════════════════════════════════════════════════════════════════════════

@[simp]
theorem selectFrom_nil_result (s : Selection) : (selectFrom s []).result = [] := rfl

@[simp]
theorem selectFrom_cons_result (s : Selection) (c : Block) (rest : List Block) :
    (selectFrom s (c :: rest)).result =
      (s.step c).result.1 :: (selectFrom (s.step c).result.2 rest).result := rfl

@[simp]
theorem marked_nil {α : Type} (xs : List α) : marked [] xs = [] := rfl

@[simp]
theorem marked_cons_nil {α : Type} (m : Bool) (ms : List Bool) :
    marked (m :: ms) ([] : List α) = [] := rfl

@[simp]
theorem marked_cons_cons {α : Type} (m : Bool) (ms : List Bool) (x : α) (xs : List α) :
    marked (m :: ms) (x :: xs) = if m then x :: marked ms xs else marked ms xs := by
  cases m <;> rfl

/-- Marks that a test gives leave the elements that pass it. -/
theorem marked_map {α : Type} (p : α → Bool) (xs : List α) :
    marked (xs.map p) xs = xs.filter p := by
  induction xs with
  | nil => rfl
  | cons x xs ih => rw [List.map_cons, marked_cons_cons, List.filter_cons, ih]

theorem marked_map_right {α β : Type} (f : α → β) (marks : List Bool) (xs : List α) :
    marked marks (xs.map f) = (marked marks xs).map f := by
  induction xs generalizing marks with
  | nil => cases marks <;> rfl
  | cons x xs ih =>
    cases marks with
    | nil => rfl
    | cons m ms =>
      rw [List.map_cons, marked_cons_cons, marked_cons_cons, ih]
      split <;> rfl

theorem logicalChildren_result (b : Block) :
    b.logicalChildren.result = marked (selectFrom .start b.children).result b.children := rfl

end Block

end BlockDoc
