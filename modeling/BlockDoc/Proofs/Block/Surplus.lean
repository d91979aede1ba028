import BlockDoc.Proofs.Block.Groups
import Mathlib.Algebra.BigOperators.Group.List.Basic
import Mathlib.Algebra.Ring.Int.Defs

/-!
# Surplus copies of instances

An evaluator may list more copies of the instances of a template than the template announces. If the
copies of each template directly follow it, a prefix of them is kept. How long the prefix is depends
on the groups before: the counter of expected instances serves all templates, is not charged for the
first copy of a group nor for groups of one line, and what is left of it is carried over. A group
with as many copies as announced leaves one more, so that the next group may keep a surplus copy; a
group with several surplus copies leaves a debt, for which the next group may lose an instance.

## Main definitions

* `Block.Expansion` — a template with the copies that directly follow it
* `Block.balance` — what is left of the counter after some groups
* `Block.Expansion.kept` — how many copies of a group are kept
* `Block.Expansion.IsExactFrom` — when exactly the announced instances are kept
* `Block.FollowsExpansions` — what is kept of a block whose children are such groups
-/

namespace BlockDoc

namespace Block

-- ════════════════════════════════════════════════════════════════════════
-- Groups
-- ════════════════════════════════════════════════════════════════════════

/-- A template that announces at least one instance, and the children that directly follow it: at
least as many copies as it announces, all on the same lines. -/
structure Expansion where
  template : Block
  copies : List Block
  range : SourceRange
  isTemplate : template.IsTemplate
  announced_pos : 0 < template.announced
  proper : ∀ c ∈ copies, ¬c.IsTemplate
  sameRange : ∀ c ∈ copies, c.range = range
  enough : template.announced ≤ copies.length

namespace Expansion

/-- The template and its copies in the order in which they are listed. -/
def children (g : Expansion) : List Block :=
  g.template :: g.copies

/-- Whether the copies stand on a single line. -/
def IsOneLine (g : Expansion) : Prop :=
  g.range.startLine = g.range.endLine

instance (g : Expansion) : Decidable g.IsOneLine :=
  inferInstanceAs (Decidable (_ = _))

/-- The number of copies that are charged to the counter: all but the first one, and none of those
on a single line. -/
def charged (g : Expansion) : Nat :=
  if g.IsOneLine then 0 else g.copies.length - 1

/-- The number of copies that are kept if the given count is carried over from the groups before. -/
def kept (g : Expansion) (carried : Int) : Nat :=
  if g.IsOneLine then g.copies.length
  else max 1 (min g.copies.length (carried + g.template.announced).toNat)

/-- The marks of a group of which the first `k` copies are kept. -/
def marks (g : Expansion) (k : Nat) : List Bool :=
  false :: (List.replicate k true ++ List.replicate (g.copies.length - k) false)

/-- When exactly the announced instances of a group are kept. On a single line there must be no
surplus copy. On several lines nothing may be carried over, with two exceptions: a leftover does no
harm if there is no surplus copy, and a debt does none if a single instance is announced. -/
def IsExactFrom (g : Expansion) (carried : Int) : Prop :=
  if g.IsOneLine then g.copies.length = g.template.announced
  else carried = 0 ∨ (0 ≤ carried ∧ g.copies.length = g.template.announced) ∨
    (carried ≤ 0 ∧ g.template.announced = 1)

end Expansion

/-- What is left of the counter after some groups: the instances that are announced, less the copies
that are charged. -/
def balance (groups : List Expansion) : Int :=
  (groups.map fun g => (g.template.announced : Int) - g.charged).sum

/-- The children of a block are groups that follow one another. -/
structure IsExpanded (b : Block) (groups : List Expansion) : Prop where
  children : b.children = groups.flatMap Expansion.children
  /-- A group starts at or after the end of the group before it. -/
  apart : groups.IsChain fun g h => g.range.endLine ≤ h.range.startLine

-- ════════════════════════════════════════════════════════════════════════
-- Marks
-- ════════════════════════════════════════════════════════════════════════

theorem marked_append {α : Type} {ms ms' : List Bool} {xs xs' : List α}
    (h : ms.length = xs.length) :
    marked (ms ++ ms') (xs ++ xs') = marked ms xs ++ marked ms' xs' := by
  simp [marked, List.zip_append h]

theorem marked_replicate_false {α : Type} (n : Nat) (xs : List α) :
    marked (List.replicate n false) xs = [] := by
  induction n generalizing xs with
  | zero => rfl
  | succ n ih =>
    cases xs with
    | nil => rfl
    | cons x xs => rw [List.replicate_succ, marked_cons_cons, ih]; rfl

/-- Marks on a prefix leave that prefix. -/
theorem marked_prefix {α : Type} (k n : Nat) (xs : List α) :
    marked (List.replicate k true ++ List.replicate n false) xs = xs.take k := by
  induction k generalizing xs with
  | zero => rw [List.replicate_zero, List.nil_append, marked_replicate_false, List.take_zero]
  | succ k ih =>
    cases xs with
    | nil => rfl
    | cons x xs =>
      rw [List.replicate_succ, List.cons_append, marked_cons_cons, ih, List.take_succ_cons]
      rfl

-- ════════════════════════════════════════════════════════════════════════
-- One group
-- ════════════════════════════════════════════════════════════════════════

/-- Copies on a single line that is covered just up to it are all new children. -/
theorem selectFrom_oneLine {r : SourceRange} (hr : r.startLine = r.endLine) {s : Selection}
    (hs : s.furthest = r.endLine) {cs : List Block} (hproper : ∀ c ∈ cs, ¬c.IsTemplate)
    (hrange : ∀ c ∈ cs, c.range = r) (rest : List Block) :
    (selectFrom s (cs ++ rest)).result =
      List.replicate cs.length true ++ (selectFrom s rest).result := by
  induction cs with
  | nil => rfl
  | cons c cs ih =>
    obtain ⟨hc, hproper⟩ := List.forall_mem_cons.mp hproper
    obtain ⟨hcr, hrange⟩ := List.forall_mem_cons.mp hrange
    have hopen : s.furthest ≤ c.range.startLine := by rw [hs, hcr, hr]
    have hsame : (⟨s.expected, c.range.endLine⟩ : Selection) = s := by rw [hcr, ← hs]
    rw [List.cons_append, selectFrom_cons_result, Selection.step_opener hc hopen, hsame,
      ih hproper hrange]
    rfl

/-- Copies on covered lines are kept as long as more than one instance is expected, and each of them
is charged. -/
theorem selectFrom_covered {r : SourceRange} {s : Selection} (hs : r.startLine < s.furthest)
    {cs : List Block} (hproper : ∀ c ∈ cs, ¬c.IsTemplate) (hrange : ∀ c ∈ cs, c.range = r)
    (rest : List Block) :
    (selectFrom s (cs ++ rest)).result =
      List.replicate (min cs.length (s.expected - 1).toNat) true ++
        List.replicate (cs.length - min cs.length (s.expected - 1).toNat) false ++
          (selectFrom ⟨s.expected - cs.length, s.furthest⟩ rest).result := by
  induction cs generalizing s with
  | nil => simp
  | cons c cs ih =>
    obtain ⟨hc, hproper⟩ := List.forall_mem_cons.mp hproper
    obtain ⟨hcr, hrange⟩ := List.forall_mem_cons.mp hrange
    have hcovered : c.range.startLine < s.furthest := hcr ▸ hs
    have hlater := ih (s := ⟨s.expected - 1, s.furthest⟩) hs hproper hrange
    have hcount : s.expected - 1 - (cs.length : Int) = s.expected - ((c :: cs).length : Nat) := by
      rw [List.length_cons]
      omega
    rw [List.cons_append, selectFrom_cons_result, Selection.step_copy hc hcovered, hlater, hcount]
    by_cases hkept : 0 < s.expected - 1
    · have hmin : min (c :: cs).length (s.expected - 1).toNat =
          min cs.length (s.expected - 1 - 1).toNat + 1 := by
        rw [List.length_cons]
        omega
      have hsub : (c :: cs).length - (min cs.length (s.expected - 1 - 1).toNat + 1) =
          cs.length - min cs.length (s.expected - 1 - 1).toNat := by
        rw [List.length_cons]
        omega
      rw [hmin, hsub, List.replicate_succ, decide_eq_true hkept]
      rfl
    · have hnone : (s.expected - 1).toNat = 0 := by omega
      have hnone' : (s.expected - 1 - 1).toNat = 0 := by omega
      rw [hnone, hnone', Nat.min_zero, Nat.min_zero, Nat.sub_zero, Nat.sub_zero, List.length_cons,
        List.replicate_succ, decide_eq_false hkept]
      rfl

namespace Expansion

variable (g : Expansion)

theorem exists_copies : ∃ c cs, g.copies = c :: cs :=
  List.exists_cons_of_length_pos (lt_of_lt_of_le g.announced_pos g.enough)

theorem kept_le (carried : Int) : g.kept carried ≤ g.copies.length := by
  have hpos := g.announced_pos
  have henough := g.enough
  unfold kept
  split
  · exact le_rfl
  · omega

@[simp]
theorem length_marks {k : Nat} (hk : k ≤ g.copies.length) :
    (g.marks k).length = g.children.length := by
  simp only [marks, children, List.length_cons, List.length_append, List.length_replicate]
  omega

/-- The marks of a group tell how many of its copies are kept. -/
theorem marks_injective {k l : Nat} (h : g.marks k = g.marks l) : k = l := by
  have hcount := congrArg (List.count true) h
  simpa [marks, List.count_replicate] using hcount

theorem marked_marks (k : Nat) : marked (g.marks k) g.children = g.copies.take k := by
  rw [marks, children, marked_cons_cons, marked_prefix]
  rfl

/-- A group that starts where nothing is covered any more keeps a prefix of its copies, and leaves
the counter with what it announces more and the copies that are charged less. -/
theorem selectFrom_children {s : Selection} (hs : s.furthest ≤ g.range.startLine)
    (rest : List Block) :
    (selectFrom s (g.children ++ rest)).result =
      g.marks (g.kept s.expected) ++
        (selectFrom ⟨s.expected + (g.template.announced - g.charged), g.range.endLine⟩
          rest).result := by
  obtain ⟨c, cs, hcopies⟩ := g.exists_copies
  obtain ⟨hc, hproper⟩ := List.forall_mem_cons.mp (hcopies ▸ g.proper)
  obtain ⟨hcr, hrange⟩ := List.forall_mem_cons.mp (hcopies ▸ g.sameRange)
  have hopen : s.furthest ≤ c.range.startLine := hcr ▸ hs
  have hfirst : (selectFrom s (g.children ++ rest)).result =
      false :: true ::
        (selectFrom ⟨s.expected + g.template.announced, g.range.endLine⟩ (cs ++ rest)).result := by
    have hopener := Selection.step_opener (s := ⟨s.expected + g.template.announced, s.furthest⟩)
      hc hopen
    rw [children, hcopies, List.cons_append, List.cons_append, selectFrom_cons_result,
      Selection.step_template s g.isTemplate, selectFrom_cons_result, hopener, hcr]
  have hlength : g.copies.length = cs.length + 1 := congrArg List.length hcopies
  rw [hfirst]
  by_cases hline : g.IsOneLine
  · have hkept : g.kept s.expected = cs.length + 1 := by rw [kept, if_pos hline, hlength]
    have hcharged : g.charged = 0 := if_pos hline
    rw [selectFrom_oneLine hline rfl hproper hrange, hkept, hcharged, marks, hlength]
    simp [List.replicate_succ]
  · have hlines : g.range.startLine < g.range.endLine :=
      lt_of_le_of_ne g.range.startLine_le_endLine hline
    have hcharged : g.charged = cs.length := by rw [charged, if_neg hline, hlength]; rfl
    have hkept : g.kept s.expected =
        min cs.length (s.expected + g.template.announced - 1).toNat + 1 := by
      rw [kept, if_neg hline, hlength]
      omega
    have hdropped : g.copies.length - g.kept s.expected =
        cs.length - min cs.length (s.expected + g.template.announced - 1).toNat := by
      omega
    have hleft : s.expected + g.template.announced - cs.length =
        s.expected + (g.template.announced - (cs.length : Nat)) := by omega
    rw [selectFrom_covered hlines hproper hrange, marks, hdropped, hkept, hcharged,
      List.replicate_succ, hleft]
    simp

/-- The announced instances are kept, and no other copy, in exactly these cases. -/
theorem kept_eq_announced_iff (carried : Int) :
    g.kept carried = g.template.announced ↔ g.IsExactFrom carried := by
  have hpos := g.announced_pos
  have henough := g.enough
  unfold kept IsExactFrom
  by_cases hline : g.IsOneLine
  · rw [if_pos hline, if_pos hline]
  · rw [if_neg hline, if_neg hline]
    omega

end Expansion

-- ════════════════════════════════════════════════════════════════════════
-- All groups
-- ════════════════════════════════════════════════════════════════════════

theorem balance_concat (before : List Expansion) (g : Expansion) :
    balance (before ++ [g]) = balance before + (g.template.announced - g.charged) := by
  simp [balance]

/-- The marks of groups, each of which keeps the number of copies that a function gives for its
position. -/
def marksBy (kept : Nat → Expansion → Nat) (groups : List Expansion) : List Bool :=
  (groups.mapIdx fun i g => g.marks (kept i g)).flatten

theorem marksBy_cons (kept : Nat → Expansion → Nat) (g : Expansion) (rest : List Expansion) :
    marksBy kept (g :: rest) = g.marks (kept 0 g) ++ marksBy (fun i => kept (i + 1)) rest := by
  simp [marksBy, List.mapIdx_cons]

theorem marksBy_eq_flatMap (kept : Expansion → Nat) (groups : List Expansion) :
    marksBy (fun _ => kept) groups = groups.flatMap fun g => g.marks (kept g) := by
  induction groups with
  | nil => rfl
  | cons g rest ih => rw [marksBy_cons, ih, List.flatMap_cons]

/-- From the counter that some groups leave, the groups that follow keep what the counter allows. -/
theorem selectFrom_groups {before groups : List Expansion} {s : Selection}
    (hs : s.expected = balance before)
    (hfirst : ∀ g ∈ groups.head?, s.furthest ≤ g.range.startLine)
    (hapart : groups.IsChain fun g h => g.range.endLine ≤ h.range.startLine) :
    (selectFrom s (groups.flatMap Expansion.children)).result =
      marksBy (fun i g => g.kept (balance (before ++ groups.take i))) groups := by
  induction groups generalizing before s with
  | nil => rfl
  | cons g rest ih =>
    have hnext : ∀ h ∈ rest.head?, g.range.endLine ≤ h.range.startLine := by
      intro h hh
      obtain ⟨rest', rfl⟩ := List.head?_eq_some_iff.mp hh
      exact (List.isChain_cons_cons.mp hapart).1
    have hbalance : s.expected + (g.template.announced - g.charged) = balance (before ++ [g]) := by
      rw [balance_concat, hs]
    rw [List.flatMap_cons, g.selectFrom_children (hfirst g rfl), ih hbalance hnext hapart.tail,
      marksBy_cons, hs]
    simp

/-- The marks of groups tell how many copies each of them keeps. -/
theorem marksBy_inj {kept kept' : Nat → Expansion → Nat} {groups : List Expansion}
    (h : ∀ i, ∀ g ∈ groups, kept i g ≤ g.copies.length)
    (h' : ∀ i, ∀ g ∈ groups, kept' i g ≤ g.copies.length) :
    marksBy kept groups = marksBy kept' groups ↔
      ∀ i (hi : i < groups.length), kept i groups[i] = kept' i groups[i] := by
  induction groups generalizing kept kept' with
  | nil => simp [marksBy]
  | cons g rest ih =>
    have hlength : (g.marks (kept 0 g)).length = (g.marks (kept' 0 g)).length := by
      rw [g.length_marks (h 0 g (List.mem_cons_self ..)),
        g.length_marks (h' 0 g (List.mem_cons_self ..))]
    have hrest : marksBy (fun i => kept (i + 1)) rest = marksBy (fun i => kept' (i + 1)) rest ↔
        ∀ i (hi : i < rest.length), kept (i + 1) rest[i] = kept' (i + 1) rest[i] :=
      ih (fun i x hx => h (i + 1) x (List.mem_cons_of_mem _ hx))
        (fun i x hx => h' (i + 1) x (List.mem_cons_of_mem _ hx))
    rw [marksBy_cons, marksBy_cons]
    constructor
    · intro heq i hi
      obtain ⟨hhead, htail⟩ := List.append_inj heq hlength
      cases i with
      | zero => exact g.marks_injective hhead
      | succ i => exact hrest.mp htail i (Nat.lt_of_succ_lt_succ hi)
    · intro heq
      have hhead : kept 0 g = kept' 0 g := heq 0 (Nat.succ_pos _)
      rw [hhead, hrest.mpr fun i hi => heq (i + 1) (Nat.succ_lt_succ hi)]

theorem marked_marksBy (kept : Nat → Expansion → Nat) {groups : List Expansion}
    (h : ∀ i, ∀ g ∈ groups, kept i g ≤ g.copies.length) :
    marked (marksBy kept groups) (groups.flatMap Expansion.children) =
      (groups.mapIdx fun i g => g.copies.take (kept i g)).flatten := by
  induction groups generalizing kept with
  | nil => rfl
  | cons g rest ih =>
    rw [marksBy_cons, List.flatMap_cons,
      marked_append (g.length_marks (h 0 g (List.mem_cons_self ..))), g.marked_marks,
      ih _ fun i x hx => h (i + 1) x (List.mem_cons_of_mem _ hx), List.mapIdx_cons,
      List.flatten_cons]

/-- What is kept of a block whose children are groups of templates and copies. -/
structure FollowsExpansions (b : Block) (groups : List Expansion) : Prop where
  /-- Of each group a prefix of the copies is kept, as long as the groups before it allow. -/
  marks : b.selection.result =
    marksBy (fun i g => g.kept (balance (groups.take i))) groups
  /-- The logical children are the kept copies, group by group. -/
  kept : b.logicalChildren.result =
    (groups.mapIdx fun i g => g.copies.take (g.kept (balance (groups.take i)))).flatten
  /-- Exactly the announced instances of every group are kept in exactly these cases. -/
  exact_iff : (b.selection.result = groups.flatMap fun g => g.marks g.template.announced) ↔
    ∀ i (hi : i < groups.length), groups[i].IsExactFrom (balance (groups.take i))

/-- Whatever the groups of a block are, the counter that they leave one after the other decides
which copies are kept. -/
theorem followsExpansions_of_isExpanded {b : Block} {groups : List Expansion}
    (h : b.IsExpanded groups) : b.FollowsExpansions groups := by
  have hmarks : b.selection.result =
      marksBy (fun i g => g.kept (balance (groups.take i))) groups := by
    rw [selection, h.children]
    exact @selectFrom_groups [] groups .start rfl (fun _ _ => Nat.zero_le _) h.apart
  have hle : ∀ (i : Nat), ∀ g ∈ groups, g.kept (balance (groups.take i)) ≤ g.copies.length :=
    fun i g _ => g.kept_le _
  refine ⟨hmarks, ?_, ?_⟩
  · have hselected : (selectFrom .start b.children).result = b.selection.result := rfl
    rw [logicalChildren_result, hselected, hmarks, h.children, marked_marksBy _ hle]
  · rw [hmarks, ← marksBy_eq_flatMap, marksBy_inj hle fun _ g _ => g.enough]
    exact forall₂_congr fun i hi => groups[i].kept_eq_announced_iff _

-- ════════════════════════════════════════════════════════════════════════
-- A leftover and a debt
-- ════════════════════════════════════════════════════════════════════════

theorem announced_templateOf (n startLine endLine : Nat) (h : startLine ≤ endLine) :
    (templateOf n startLine endLine h).announced = n := by
  have hcount : (templateOf n startLine endLine h).announced =
      (List.replicate n (default : TypedValue)).length := rfl
  rw [hcount, List.length_replicate]

/-- A template that announces `n + 1` instances, with `surplus` copies more than that. The range of
all of them goes from a line to the one that is `further` lines below. -/
def expansionOf (n surplus startLine further : Nat) : Expansion where
  template :=
    templateOf (n + 1) startLine (startLine + further) (Nat.le_add_right startLine further)
  copies := List.replicate (n + 1 + surplus) <|
    bareChild "ingress" startLine (startLine + further) (Nat.le_add_right startLine further)
  range := ⟨"main.tf", startLine, startLine + further, Nat.le_add_right startLine further⟩
  isTemplate := rfl
  announced_pos := by
    rw [announced_templateOf]
    exact Nat.succ_pos n
  proper := by
    intro c hc
    rw [List.eq_of_mem_replicate hc]
    show ¬"ingress" = dynamicType
    decide
  sameRange := by
    intro c hc
    rw [List.eq_of_mem_replicate hc]
    rfl
  enough := by
    rw [announced_templateOf, List.length_replicate]
    exact Nat.le_add_right (n + 1) surplus

/-- The block whose children are the given groups. -/
def expandedBlock (groups : List Expansion) (endLine : Nat) : Block where
  type := "resource"
  range := ⟨"main.tf", 0, endLine, Nat.zero_le endLine⟩
  children := groups.flatMap Expansion.children

/-- A group without surplus, whose template leaves one instance that is expected still. The surplus
copy of the group after it is taken for that instance. -/
def leftoverGroups : List Expansion :=
  [expansionOf 0 0 4 2, expansionOf 0 1 9 2]

theorem isExpanded_leftover : (expandedBlock leftoverGroups 12).IsExpanded leftoverGroups where
  children := rfl
  apart := by decide

/-- It is not the case that exactly the announced instances of every group are kept. -/
theorem not_forall_selection_announced :
    ¬∀ (b : Block) (groups : List Expansion), b.IsExpanded groups →
      b.selection.result = groups.flatMap fun g => g.marks g.template.announced := by
  intro h
  have hleftover := h (expandedBlock leftoverGroups 12) leftoverGroups isExpanded_leftover
  exact absurd hleftover (by decide)

/-- A group with three surplus copies, a group on a single line with a surplus copy, and a group
that loses an instance for the debt of the first one. -/
def indebtedGroups : List Expansion :=
  [expansionOf 0 3 4 2, expansionOf 0 1 9 0, expansionOf 1 0 11 2]

/-- Of the copies of `indebtedGroups` one, two and one are kept, although one, one and two instances
are announced. -/
theorem followsExpansions_indebted :
    (expandedBlock indebtedGroups 14).IsExpanded indebtedGroups ∧
      (expandedBlock indebtedGroups 14).FollowsExpansions indebtedGroups ∧
      marksBy (fun i g => g.kept (balance (indebtedGroups.take i))) indebtedGroups =
        [false, true, false, false, false, false, true, true, false, true, false] := by
  have h : (expandedBlock indebtedGroups 14).IsExpanded indebtedGroups := ⟨rfl, by decide⟩
  exact ⟨h, followsExpansions_of_isExpanded h, by decide⟩

end Block

end BlockDoc
