import BlockDoc.Block.Check
import BlockDoc.Diagnostic
import BlockDoc.Proofs.Table
import BlockDoc.Tree.Parent

/-!
# Where checks break down

Whatever violates a model is a finding, with one exception: a payload that is to be gone through and
has nothing to go through ends the whole check. Checks put together from others break down only if
one of these does, so each breakdown leads back to a typed value with such a payload among the data.

## Main definitions

* `Datum.PartOf` — the parts of data, at any depth
* `Datum.IsHollow` — a mapping that gives a sequence without items or a record without members
* `Checked.BreaksOnlyAt` — the breakdowns of a check have a property

## Main results

* `TypedValue.check_of_isHollow` — the check of a hollow typed value breaks down
* `TypedValue.breaksOnlyAt_check`, `Block.breaksOnlyAt_check` — a check of data breaks down only at
  a hollow part of them
-/

namespace BlockDoc

-- ════════════════════════════════════════════════════════════════════════
-- Hollow parts
-- ════════════════════════════════════════════════════════════════════════

/-- How the check of a payload that has no typed values in it breaks down: numbers and truth values
have no items, and nothing but a mapping has members. -/
def Tag.breakdown? : Tag → Datum → Option Breakdown
  | .sequence _, .bool _ | .sequence _, .int _ | .sequence _, .float _ => some .noItems
  | .record _, .bool _ | .record _, .int _ | .record _, .float _ | .record _, .str _
  | .record _, .list _ => some .noMembers
  | _, _ => none

namespace Datum

/-- The parts of data: the data themselves, and the parts of their items and members. -/
inductive PartOf : Datum → Datum → Prop
  | refl (d : Datum) : PartOf d d
  | item {p d : Datum} {items : List Datum} (hd : d ∈ items) (hp : PartOf p d) :
    PartOf p (.list items)
  | member {p : Datum} {e : Datum × Datum} {entries : List (Datum × Datum)} (he : e ∈ entries)
    (hp : PartOf p e.2) : PartOf p (.map entries)

/-- A mapping with the tag of a sequence or a record, and a payload that cannot be gone through. -/
inductive IsHollow (b : Breakdown) : Datum → Prop
  | intro {entries : List (Datum × Datum)} {name : String} {tag : Tag} {payload : Datum}
    (htype : member? entries "type" = some (.str name)) (htag : Tag.ofName? name = some tag)
    (hvalue : member? entries "value" = some payload) (hb : tag.breakdown? payload = some b) :
    IsHollow b (.map entries)

/-- Data have a hollow part. -/
def HollowWithin (d : Datum) (b : Breakdown) : Prop :=
  ∃ p, PartOf p d ∧ IsHollow b p

variable {b : Breakdown}

theorem HollowWithin.item {d : Datum} {items : List Datum} (hd : d ∈ items)
    (h : d.HollowWithin b) : (Datum.list items).HollowWithin b := by
  obtain ⟨p, hp, hb⟩ := h
  exact ⟨p, .item hd hp, hb⟩

theorem HollowWithin.member {e : Datum × Datum} {entries : List (Datum × Datum)}
    (he : e ∈ entries) (h : e.2.HollowWithin b) : (Datum.map entries).HollowWithin b := by
  obtain ⟨p, hp, hb⟩ := h
  exact ⟨p, .member he hp, hb⟩

end Datum

-- ════════════════════════════════════════════════════════════════════════
-- Checks made of checks
-- ════════════════════════════════════════════════════════════════════════

namespace Checked

variable {α β : Type} {P : Breakdown → Prop} {b : Breakdown} {x : Checked α}

@[simp]
theorem map_eq_broken {f : α → β} : x.map f = .broken b ↔ x = .broken b := by
  cases x <;> simp [map]

@[simp]
theorem under_eq_broken {step : Step} : x.under step = .broken b ↔ x = .broken b := by
  cases x <;> simp [under]

theorem andThen_eq_broken {f : α → Checked β} :
    x.andThen f = .broken b ↔ x = .broken b ∨ ∃ a, x = .valid a ∧ f a = .broken b := by
  cases x <;> simp [andThen]

theorem broken_of_both_eq_broken {y : Checked β} (h : x.both y = .broken b) :
    x = .broken b ∨ y = .broken b := by
  cases x <;> cases y <;> simp_all [both]

/-- The breakdowns of a check have a property. -/
def BreaksOnlyAt (P : Breakdown → Prop) (x : Checked α) : Prop :=
  ∀ b, x = .broken b → P b

theorem BreaksOnlyAt.valid (a : α) : (Checked.valid a).BreaksOnlyAt P := nofun

theorem BreaksOnlyAt.invalid (fs : List Finding) :
    (Checked.invalid fs : Checked α).BreaksOnlyAt P := nofun

theorem BreaksOnlyAt.violated (v : Violation) :
    (Checked.violated v : Checked α).BreaksOnlyAt P := nofun

theorem BreaksOnlyAt.mono {Q : Breakdown → Prop} (h : x.BreaksOnlyAt P)
    (hPQ : ∀ b, P b → Q b) : x.BreaksOnlyAt Q :=
  fun b hb => hPQ b (h b hb)

theorem BreaksOnlyAt.map (h : x.BreaksOnlyAt P) (f : α → β) : (x.map f).BreaksOnlyAt P :=
  fun b hb => h b (map_eq_broken.mp hb)

theorem BreaksOnlyAt.under (h : x.BreaksOnlyAt P) (step : Step) :
    (x.under step).BreaksOnlyAt P :=
  fun b hb => h b (under_eq_broken.mp hb)

theorem BreaksOnlyAt.andThen {f : α → Checked β} (h : x.BreaksOnlyAt P)
    (hf : ∀ a, (f a).BreaksOnlyAt P) : (x.andThen f).BreaksOnlyAt P := by
  intro b hb
  rcases andThen_eq_broken.mp hb with hx | ⟨a, -, ha⟩
  · exact h b hx
  · exact hf a b ha

theorem BreaksOnlyAt.both {y : Checked β} (hx : x.BreaksOnlyAt P) (hy : y.BreaksOnlyAt P) :
    (x.both y).BreaksOnlyAt P :=
  fun b hb => (broken_of_both_eq_broken hb).elim (hx b) (hy b)

/-- A check of the first item and then of the others breaks down only at one of them. -/
theorem BreaksOnlyAt.cons {γ δ : Type} {Q : δ → Breakdown → Prop} {d : δ} {rest : List δ}
    {y : Checked β} {f : α → β → γ} (hx : x.BreaksOnlyAt (Q d))
    (hy : y.BreaksOnlyAt fun b => ∃ i ∈ rest, Q i b) :
    (x.andThen fun a => y.map (f a)).BreaksOnlyAt fun b => ∃ i ∈ d :: rest, Q i b := by
  refine (hx.mono fun b hb => ?_).andThen fun a => (hy.mono fun b hb => ?_).map _
  · exact ⟨d, List.mem_cons_self .., hb⟩
  · obtain ⟨i, hi, hb⟩ := hb
    exact ⟨i, List.mem_cons_of_mem d hi, hb⟩

theorem BreaksOnlyAt.functor_map (h : x.BreaksOnlyAt P) (f : α → β) :
    (f <$> x).BreaksOnlyAt P :=
  h.map f

/-- Checks side by side break down only where one of them does. -/
theorem BreaksOnlyAt.seq {f : Checked (α → β)} (hf : f.BreaksOnlyAt P)
    (hx : x.BreaksOnlyAt P) : (f <*> x).BreaksOnlyAt P :=
  (hf.both hx).map _

end Checked

namespace Rule

variable {α : Type} {P : Breakdown → Prop} {rule : Datum → Checked α}

open Checked

theorem breaksOnlyAt_string (d : Datum) : (string d).BreaksOnlyAt P := by
  cases d with
  | str s => exact .valid s
  | _ => exact .violated _

theorem breaksOnlyAt_integerOfFloat (x : Binary64) : (integerOfFloat x).BreaksOnlyAt P := by
  unfold integerOfFloat
  split
  · exact .violated _
  · split
    · exact .violated _
    · split
      · exact .valid _
      · exact .violated _

theorem breaksOnlyAt_integerOfText (s : String) : (integerOfText s).BreaksOnlyAt P := by
  unfold integerOfText
  dsimp only
  split
  · exact .violated _
  · split
    · exact .valid _
    · exact .violated _

theorem breaksOnlyAt_integer (d : Datum) : (integer d).BreaksOnlyAt P := by
  cases d with
  | bool b => exact .valid _
  | int n => exact .valid n
  | float x => exact breaksOnlyAt_integerOfFloat x
  | str s => exact breaksOnlyAt_integerOfText s
  | _ => exact .violated _

theorem breaksOnlyAt_natural (d : Datum) : (natural d).BreaksOnlyAt P := by
  refine (breaksOnlyAt_integer d).andThen fun n => ?_
  split
  · exact .violated _
  · exact .valid _

theorem breaksOnlyAt_optional {d : Datum} (h : (rule d).BreaksOnlyAt P) :
    (optional rule d).BreaksOnlyAt P := by
  unfold optional
  split
  · exact .valid _
  · exact h.map _

theorem breaksOnlyAt_instanceKey (d : Datum) : (instanceKey d).BreaksOnlyAt P := by
  unfold instanceKey
  split
  · exact .valid _
  · split
    · exact .valid _
    · exact .invalid _
    · next c hc =>
      intro b hb
      cases hb
      exact (breaksOnlyAt_integer _).under _ c hc

theorem breaksOnlyAt_itemsFrom {items : List Datum} (h : ∀ d ∈ items, (rule d).BreaksOnlyAt P)
    (position : Nat) : (itemsFrom rule position items).BreaksOnlyAt P := by
  induction items generalizing position with
  | nil => exact .valid _
  | cons d rest ih =>
    obtain ⟨hd, hrest⟩ := List.forall_mem_cons.mp h
    exact ((hd.under _).functor_map _).seq (ih hrest (position + 1))

/-- A list breaks down only where one of its items does. -/
theorem breaksOnlyAt_list {d : Datum} (h : ∀ items, d = .list items → ∀ i ∈ items,
    (rule i).BreaksOnlyAt P) : (list rule d).BreaksOnlyAt P := by
  cases d with
  | list items => exact breaksOnlyAt_itemsFrom (h items rfl) 0
  | _ => exact .violated _

variable {entries : List (Datum × Datum)}

theorem breaksOnlyAt_required (h : ∀ e ∈ entries, (rule e.2).BreaksOnlyAt P) (name : String) :
    (required rule entries name).BreaksOnlyAt P := by
  unfold required
  refine BreaksOnlyAt.under ?_ _
  split
  · next d hd =>
    obtain ⟨k, -, hmem⟩ := Table.exists_mem_of_find? hd
    exact h (k, d) hmem
  · exact .violated _

theorem breaksOnlyAt_defaulted (h : ∀ e ∈ entries, (rule e.2).BreaksOnlyAt P) (value : α)
    (name : String) : (defaulted rule value entries name).BreaksOnlyAt P := by
  unfold defaulted
  split
  · next d hd =>
    obtain ⟨k, -, hmem⟩ := Table.exists_mem_of_find? hd
    exact (h (k, d) hmem).under _
  · exact .valid _

theorem breaksOnlyAt_model {fields : List (Datum × Datum) → Checked α} {d : Datum}
    (h : ∀ entries, d = .map entries → (fields entries).BreaksOnlyAt P) :
    (model fields d).BreaksOnlyAt P := by
  cases d with
  | map entries => exact h entries rfl
  | _ => exact .violated _

end Rule

-- ════════════════════════════════════════════════════════════════════════
-- Models
-- ════════════════════════════════════════════════════════════════════════

section Models

variable {P : Breakdown → Prop}

open Rule

/-- A diagnostic has no typed values in it. -/
theorem Diagnostic.breaksOnlyAt_check (d : Datum) : (Diagnostic.check d).BreaksOnlyAt P := by
  refine breaksOnlyAt_model fun entries _ => ?_
  have hstring : ∀ e ∈ entries, (string e.2).BreaksOnlyAt P := fun e _ => breaksOnlyAt_string e.2
  have hfilename : ∀ e ∈ entries, (optional string e.2).BreaksOnlyAt P :=
    fun e he => breaksOnlyAt_optional (hstring e he)
  have hline : ∀ e ∈ entries, (optional integer e.2).BreaksOnlyAt P :=
    fun e _ => breaksOnlyAt_optional (breaksOnlyAt_integer e.2)
  exact ((((breaksOnlyAt_defaulted hstring _ _).functor_map _).seq
    (breaksOnlyAt_required hstring _)).seq (breaksOnlyAt_defaulted hfilename _ _)).seq
    (breaksOnlyAt_defaulted hline _ _)

/-- The parent of a module has no typed values in it. -/
theorem ParentRef.breaksOnlyAt_check (d : Datum) : (ParentRef.check d).BreaksOnlyAt P := by
  refine breaksOnlyAt_model fun entries _ => ?_
  exact ((breaksOnlyAt_required (fun e _ => breaksOnlyAt_natural e.2) _).functor_map _).seq
    (breaksOnlyAt_required (fun e _ => breaksOnlyAt_string e.2) _)

theorem SourceRange.breaksOnlyAt_check (d : Datum) : (SourceRange.check d).BreaksOnlyAt P := by
  refine breaksOnlyAt_model fun entries _ => ?_
  have hstring : ∀ e ∈ entries, (string e.2).BreaksOnlyAt P := fun e _ => breaksOnlyAt_string e.2
  have hline : ∀ e ∈ entries, (natural e.2).BreaksOnlyAt P := fun e _ => breaksOnlyAt_natural e.2
  refine ((breaksOnlyAt_required hstring _).both ((breaksOnlyAt_required hline _).both
    (breaksOnlyAt_required hline _))).andThen fun p => ?_
  unfold SourceRange.ofLines
  split
  · exact .valid _
  · exact .violated _

end Models

namespace TypedValue

/-- A payload without typed values in it breaks a check down if it cannot be gone through. -/
theorem breakdown?_of_ofBarePayload {tag : Tag} {payload : Datum} {b : Breakdown}
    (hmap : ∀ kind entries, tag = .record kind → payload ≠ .map entries)
    (h : ofBarePayload tag payload = .broken b) : tag.breakdown? payload = some b := by
  cases tag with
  | sequence kind =>
    cases payload with
    | bool _ | int _ | float _ =>
      cases h
      rfl
    | str s =>
      simp only [ofBarePayload, emptySequence] at h
      split at h <;> cases h
    | list items =>
      simp only [ofBarePayload, emptySequence] at h
      split at h <;> cases h
    | map entries =>
      simp only [ofBarePayload, emptySequence] at h
      split at h <;> cases h
    | null => cases h
  | record kind =>
    cases payload with
    | map entries => exact absurd rfl (hmap kind entries rfl)
    | null => cases h
    | _ =>
      cases h
      rfl
  | _ => cases h

/-- The payload of a mapping is null if it is left out. -/
theorem checkPayloadIn_eq (tag : Tag) (entries : List (Datum × Datum)) :
    checkPayloadIn tag entries =
      checkPayload tag ((Datum.member? entries "value").getD .null) := by
  induction entries with
  | nil => rfl
  | cons e rest ih =>
    obtain ⟨k, v⟩ := e
    unfold checkPayloadIn
    by_cases hk : k == .str "value"
    · have hv : Datum.member? ((k, v) :: rest) "value" = some v := if_pos hk
      rw [if_pos hk, hv, Option.getD_some]
    · have hrest : Datum.member? ((k, v) :: rest) "value" = Datum.member? rest "value" := if_neg hk
      rw [if_neg hk, hrest, ih]

theorem checkPayload_of_breakdown? {tag : Tag} {payload : Datum} {b : Breakdown}
    (h : tag.breakdown? payload = some b) : checkPayload tag payload = .broken b := by
  cases tag with
  | sequence kind | record kind =>
    cases payload <;> cases h <;> rfl
  | _ => cases h

/-- A mapping with a tag is checked by its tag and its payload alone. -/
theorem check_of_type {entries : List (Datum × Datum)} {name : String}
    (htype : Datum.member? entries "type" = some (.str name)) :
    check (.map entries) =
      match h : Tag.ofName? name with
      | some tag => checkPayload tag ((Datum.member? entries "value").getD .null)
      | none => .valid (.foreign ⟨name, h⟩ ((Datum.member? entries "value").getD .null)) := by
  unfold check
  split
  · next hnone =>
    rw [htype] at hnone
    cases hnone
  · next found hfound =>
    obtain rfl := Datum.str.inj (Option.some.inj (hfound.symm.trans htype))
    exact congrArg (fun known : Tag → Checked TypedValue => match h : Tag.ofName? found with
      | some tag => known tag
      | none => .valid (.foreign ⟨found, h⟩ ((Datum.member? entries "value").getD .null)))
      (funext fun tag => checkPayloadIn_eq tag entries)
  · next d hother hd => exact (hother _ (Option.some.inj (hd.symm.trans htype))).elim

/-- A mapping with a known tag is checked as its payload is under that tag. -/
theorem check_of_ofName? {entries : List (Datum × Datum)} {name : String} {tag : Tag}
    (htype : Datum.member? entries "type" = some (.str name))
    (htag : Tag.ofName? name = some tag) :
    check (.map entries) = checkPayload tag ((Datum.member? entries "value").getD .null) := by
  rw [check_of_type htype]
  split
  · next found hfound => rw [Option.some.inj (hfound.symm.trans htag)]
  · next hnone =>
    rw [htag] at hnone
    cases hnone

theorem check_of_members {entries : List (Datum × Datum)} {name : String} {tag : Tag}
    {payload : Datum} (htype : Datum.member? entries "type" = some (.str name))
    (htag : Tag.ofName? name = some tag) (hvalue : Datum.member? entries "value" = some payload) :
    check (.map entries) = checkPayload tag payload := by
  rw [check_of_ofName? htype htag, hvalue, Option.getD_some]

/-- The check of a hollow value breaks down. -/
theorem check_of_isHollow {d : Datum} {b : Breakdown} (h : d.IsHollow b) :
    check d = .broken b := by
  obtain ⟨htype, htag, hvalue, hb⟩ := h
  rw [check_of_members htype htag hvalue, checkPayload_of_breakdown? hb]

mutual

/-- If the check of a typed value breaks down, a part of the data is hollow. -/
theorem breaksOnlyAt_check : (d : Datum) → (check d).BreaksOnlyAt d.HollowWithin
  | .map entries => by
    unfold check
    split
    · exact .invalid _
    · next name htype =>
      split
      · next tag htag =>
        refine (breaksOnlyAt_checkPayloadIn entries tag).mono fun b hb => ?_
        rcases hb with ⟨payload, hvalue, hb⟩ | ⟨e, he, hb⟩
        · exact ⟨_, .refl _, .intro htype htag hvalue hb⟩
        · exact hb.member he
      · exact .valid _
    · exact .invalid _
  | .null | .bool _ | .int _ | .float _ | .str _ | .list _ => .violated _
termination_by structural d => d

/-- If the check of the payload among the entries of a mapping breaks down, the payload cannot be
gone through, or the value of an entry has a hollow part. -/
theorem breaksOnlyAt_checkPayloadIn : (entries : List (Datum × Datum)) → (tag : Tag) →
    (checkPayloadIn tag entries).BreaksOnlyAt fun b =>
      (∃ payload, Datum.member? entries "value" = some payload ∧
        tag.breakdown? payload = some b) ∨ ∃ e ∈ entries, e.2.HollowWithin b
  | [], tag => by
    intro b h
    cases tag <;> cases h
  | (k, v) :: rest, tag => by
    unfold checkPayloadIn
    split
    · next hk =>
      have hmember : Datum.member? ((k, v) :: rest) "value" = some v := if_pos hk
      refine (breaksOnlyAt_checkPayload v tag).mono fun b hb => ?_
      rcases hb with hb | hb
      · exact .inl ⟨v, hmember, hb⟩
      · exact .inr ⟨(k, v), List.mem_cons_self .., hb⟩
    · next hk =>
      have hmember : Datum.member? ((k, v) :: rest) "value" = Datum.member? rest "value" :=
        if_neg hk
      refine (breaksOnlyAt_checkPayloadIn rest tag).mono fun b hb => ?_
      rw [hmember]
      rcases hb with hb | ⟨e, he, hb⟩
      · exact .inl hb
      · exact .inr ⟨e, List.mem_cons_of_mem _ he, hb⟩
termination_by structural entries => entries

/-- If the check of a payload breaks down, it cannot be gone through, or a part of it is hollow. -/
theorem breaksOnlyAt_checkPayload : (payload : Datum) → (tag : Tag) →
    (checkPayload tag payload).BreaksOnlyAt fun b =>
      tag.breakdown? payload = some b ∨ payload.HollowWithin b
  | .list items, tag => by
    unfold checkPayload
    split
    · refine ((breaksOnlyAt_checkItems items).map _).mono fun b hb => .inr ?_
      obtain ⟨i, hi, hb⟩ := hb
      exact hb.item hi
    · exact fun b h => .inl (breakdown?_of_ofBarePayload nofun h)
  | .map entries, tag => by
    unfold checkPayload
    split
    · refine ((breaksOnlyAt_checkMembers entries).map _).mono fun b hb => .inr ?_
      obtain ⟨e, he, hb⟩ := hb
      exact hb.member he
    · next hrecord =>
      exact fun b h => .inl <|
        breakdown?_of_ofBarePayload (fun kind _ htag => absurd htag (hrecord kind)) h
  | .null, _ | .bool _, _ | .int _, _ | .float _, _ | .str _, _ =>
    fun b h => .inl (breakdown?_of_ofBarePayload nofun h)
termination_by structural payload => payload

theorem breaksOnlyAt_checkItems : (items : List Datum) →
    (checkItems items).BreaksOnlyAt fun b => ∃ d ∈ items, d.HollowWithin b
  | [] => .valid _
  | d :: rest => .cons (breaksOnlyAt_check d) (breaksOnlyAt_checkItems rest)
termination_by structural items => items

theorem breaksOnlyAt_checkMembers : (entries : List (Datum × Datum)) →
    (checkMembers entries).BreaksOnlyAt fun b => ∃ e ∈ entries, e.2.HollowWithin b
  | [] => .valid _
  | (k, v) :: rest => .cons (Q := fun e => Datum.HollowWithin e.2) (d := (k, v))
    (breaksOnlyAt_check v) (breaksOnlyAt_checkMembers rest)
termination_by structural entries => entries

end

end TypedValue

-- ════════════════════════════════════════════════════════════════════════
-- Blocks
-- ════════════════════════════════════════════════════════════════════════

/-- If all checks of values break down only at hollow parts, so does a list of them. -/
theorem Rule.breaksOnlyAt_list_hollow {α : Type} {rule : Datum → Checked α}
    (h : ∀ d, (rule d).BreaksOnlyAt d.HollowWithin) (d : Datum) :
    (Rule.list rule d).BreaksOnlyAt d.HollowWithin := by
  refine breaksOnlyAt_list fun items hitems i hi => ?_
  subst hitems
  exact (h i).mono fun b hb => hb.item hi

theorem Attribute.breaksOnlyAt_check (d : Datum) :
    (Attribute.check d).BreaksOnlyAt d.HollowWithin := by
  refine Rule.breaksOnlyAt_model fun entries hd => ?_
  subst hd
  have hstring : ∀ e ∈ entries, (Rule.string e.2).BreaksOnlyAt
      (Datum.map entries).HollowWithin := fun e _ => Rule.breaksOnlyAt_string e.2
  have hvalue : ∀ e ∈ entries, (TypedValue.check e.2).BreaksOnlyAt
      (Datum.map entries).HollowWithin :=
    fun e he => (TypedValue.breaksOnlyAt_check e.2).mono fun b hb => hb.member he
  have hreferences : ∀ e ∈ entries, (Rule.list Rule.string e.2).BreaksOnlyAt
      (Datum.map entries).HollowWithin :=
    fun e _ => Rule.breaksOnlyAt_list fun _ _ i _ => Rule.breaksOnlyAt_string i
  exact ((((Rule.breaksOnlyAt_required hstring _).functor_map _).seq
    (Rule.breaksOnlyAt_defaulted hvalue _ _)).seq (Rule.breaksOnlyAt_defaulted hstring _ _)).seq
    (Rule.breaksOnlyAt_defaulted hreferences _ _)

namespace Block

theorem breaksOnlyAt_checkReference (entries : List (Datum × Datum)) {P : Breakdown → Prop} :
    (checkReference entries).BreaksOnlyAt P := by
  have hrule : ∀ e ∈ entries, (Rule.optional Rule.string e.2).BreaksOnlyAt P :=
    fun e _ => Rule.breaksOnlyAt_optional (Rule.breaksOnlyAt_string e.2)
  unfold checkReference
  split
  · exact Rule.breaksOnlyAt_defaulted hrule _ _
  · exact Rule.breaksOnlyAt_defaulted hrule _ _

theorem breaksOnlyAt_checkFields {entries : List (Datum × Datum)} {children : Checked (List Block)}
    (h : children.BreaksOnlyAt (Datum.map entries).HollowWithin) :
    (checkFields entries children).BreaksOnlyAt (Datum.map entries).HollowWithin := by
  have hstring : ∀ e ∈ entries, (Rule.string e.2).BreaksOnlyAt
      (Datum.map entries).HollowWithin := fun e _ => Rule.breaksOnlyAt_string e.2
  have hlabels : ∀ e ∈ entries, (Rule.list Rule.string e.2).BreaksOnlyAt
      (Datum.map entries).HollowWithin :=
    fun e _ => Rule.breaksOnlyAt_list fun _ _ i _ => Rule.breaksOnlyAt_string i
  have hattributes : ∀ e ∈ entries, (Rule.list Attribute.check e.2).BreaksOnlyAt
      (Datum.map entries).HollowWithin :=
    fun e he => (Rule.breaksOnlyAt_list_hollow Attribute.breaksOnlyAt_check e.2).mono
      fun b hb => hb.member he
  have hindex : ∀ e ∈ entries, (Rule.optional Rule.instanceKey e.2).BreaksOnlyAt
      (Datum.map entries).HollowWithin :=
    fun e _ => Rule.breaksOnlyAt_optional (Rule.breaksOnlyAt_instanceKey e.2)
  have hrange : ∀ e ∈ entries, (SourceRange.check e.2).BreaksOnlyAt
      (Datum.map entries).HollowWithin := fun e _ => SourceRange.breaksOnlyAt_check e.2
  have hhead := (((Rule.breaksOnlyAt_required hstring "type").functor_map Block.mk).seq
    (Rule.breaksOnlyAt_defaulted hlabels [] "labels")).seq
    (Rule.breaksOnlyAt_defaulted hattributes [] "attributes")
  exact ((((hhead.seq h).seq (Rule.breaksOnlyAt_defaulted hstring _ _)).seq
    (Rule.breaksOnlyAt_defaulted hindex _ _)).seq (Rule.breaksOnlyAt_required hrange _)).seq
    (breaksOnlyAt_checkReference entries)

mutual

/-- If the check of a block breaks down, a part of the data is hollow. -/
theorem breaksOnlyAt_check : (d : Datum) → (check d).BreaksOnlyAt d.HollowWithin
  | .map entries => by
    refine breaksOnlyAt_checkFields ((breaksOnlyAt_checkChildrenIn entries).mono fun b hb => ?_)
    obtain ⟨e, he, hb⟩ := hb
    exact hb.member he
  | .null | .bool _ | .int _ | .float _ | .str _ | .list _ => .violated _
termination_by structural d => d

theorem breaksOnlyAt_checkChildrenIn : (entries : List (Datum × Datum)) →
    (checkChildrenIn entries).BreaksOnlyAt fun b => ∃ e ∈ entries, e.2.HollowWithin b
  | [] => .valid _
  | (k, v) :: rest => by
    unfold checkChildrenIn
    split
    · exact ((breaksOnlyAt_checkChildren v).under _).mono fun b hb =>
        ⟨(k, v), List.mem_cons_self .., hb⟩
    · refine (breaksOnlyAt_checkChildrenIn rest).mono fun b hb => ?_
      obtain ⟨e, he, hb⟩ := hb
      exact ⟨e, List.mem_cons_of_mem _ he, hb⟩
termination_by structural entries => entries

theorem breaksOnlyAt_checkChildren : (d : Datum) →
    (checkChildren d).BreaksOnlyAt d.HollowWithin
  | .list items => by
    refine (breaksOnlyAt_checkItems items 0).mono fun b hb => ?_
    obtain ⟨i, hi, hb⟩ := hb
    exact hb.item hi
  | .null | .bool _ | .int _ | .float _ | .str _ | .map _ => .violated _
termination_by structural d => d

theorem breaksOnlyAt_checkItems : (items : List Datum) → (position : Nat) →
    (checkItems position items).BreaksOnlyAt fun b => ∃ d ∈ items, d.HollowWithin b
  | [], _ => .valid _
  | d :: rest, position => by
    have hfirst : ((check d).under (.position position)).BreaksOnlyAt
        fun b => ∃ i ∈ d :: rest, i.HollowWithin b :=
      ((breaksOnlyAt_check d).under _).mono fun b hb => ⟨d, List.mem_cons_self .., hb⟩
    refine (hfirst.functor_map _).seq ((breaksOnlyAt_checkItems rest (position + 1)).mono
      fun b hb => ?_)
    obtain ⟨i, hi, hb⟩ := hb
    exact ⟨i, List.mem_cons_of_mem d hi, hb⟩
termination_by structural items => items

end

end Block

end BlockDoc
