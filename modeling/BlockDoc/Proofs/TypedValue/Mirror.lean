import BlockDoc.Proofs.Binary64.Nearest
import BlockDoc.Proofs.TypedValue.Plain

/-!
# Plain data mirror typed values

A typed value has no plain data if and only if a bad value is among those that it is made of. Sets
are bad, and so are values of foreign types and numbers that cannot be given. What stands below a
null or an unknown value does not count. All other values have plain data, which mirror them part by
part, under the same keys and in the same order.

## Main definitions

* `TypedValue.Reaches` — the values that a value is made of
* `TypedValue.IsBad` — the values that have no plain data
* `TypedValue.Mirrors` — the plain data that a value should have

## Main results

* `TypedValue.plain?_eq_none_iff` — which values have no plain data
* `TypedValue.mirrors_of_plain?` — plain data mirror the value
* `TypedValue.plain?_isSome_iff_and_mirrors` — both, with the number of parts
-/

namespace BlockDoc

-- ════════════════════════════════════════════════════════════════════════
-- Numbers
-- ════════════════════════════════════════════════════════════════════════

/-- The payloads of numbers that cannot be given: no payload, a text that is none of a number, an
infinity or a `nan`, and a number that is not integral and lies beyond the range of floating-point
numbers. -/
inductive IsBadNumber : Option String → Prop
  | missing : IsBadNumber none
  | malformed {s : String} (h : Decimal.ofText? s = none) : IsBadNumber (some s)
  | special {s : String} {d : Decimal} (h : Decimal.ofText? s = some d) (hd : d.isFinite = false) :
    IsBadNumber (some s)
  | overflow {s : String} {d : Decimal} {q : ℚ} (h : Decimal.ofText? s = some d)
    (hq : d.value? = some q) (hfraction : ∀ n : Int, q ≠ n) (hlarge : Binary64.overflow ≤ |q|) :
    IsBadNumber (some s)

/-- The datum for the value of a number: the integer that it is, or else a floating-point number to
which none is nearer. -/
inductive IsDatumOf : ℚ → Datum → Prop
  | int (n : Int) : IsDatumOf n (.int n)
  | float {q : ℚ} {x : Binary64} (hfraction : ∀ n : Int, q ≠ n) (hx : x.IsNearest q) :
    IsDatumOf q (.float x)

namespace Decimal

theorem toDatum?_of_value? {d : Decimal} {n : Int} (h : d.value? = some (n : ℚ)) :
    d.toDatum? = some (.int n) := by
  rw [toDatum?, toInt?_eq_some_iff.mpr h]

/-- A number that is not integral is given as the floating-point number to which it is rounded. -/
theorem toDatum?_of_fraction {d : Decimal} {q : ℚ} (hq : d.value? = some q)
    (hfraction : ∀ n : Int, q ≠ n) :
    d.toDatum? = if |q| < Binary64.overflow then some (.float d.toBinary64) else none := by
  rw [toDatum?, (toInt?_eq_none_iff hq).mpr hfraction]
  dsimp only
  rw [Binary64.toDatum?]
  exact if_congr (isFinite_toBinary64_iff hq) rfl rfl

theorem toDatum?_of_not_isFinite {d : Decimal} (h : d.isFinite = false) : d.toDatum? = none := by
  cases d with
  | finite negative c e => cases h
  | infinite negative => rfl
  | nan negative signaling payload => rfl

end Decimal

namespace TypedValue

theorem plainNumber?_some {s : String} {d : Decimal} (h : Decimal.ofText? s = some d) :
    plainNumber? (some s) = d.toDatum? := by
  simp only [plainNumber?, Option.bind_eq_bind, Option.bind_some, h]

/-- A number has no plain data if and only if its payload is bad. -/
theorem plainNumber?_eq_none_iff {text : Option String} :
    plainNumber? text = none ↔ IsBadNumber text := by
  constructor
  · intro hnone
    rcases text with _ | s
    · exact .missing
    · cases hread : Decimal.ofText? s with
      | none => exact .malformed hread
      | some d =>
        rw [plainNumber?_some hread] at hnone
        cases hq : d.value? with
        | none => exact .special hread (Decimal.isFinite_eq_false_of_value? hq)
        | some q =>
          have hfraction : ∀ n : Int, q ≠ n := by
            rintro n rfl
            rw [Decimal.toDatum?_of_value? hq] at hnone
            cases hnone
          rw [Decimal.toDatum?_of_fraction hq hfraction] at hnone
          split at hnone
          · cases hnone
          · next hlarge => exact .overflow hread hq hfraction (not_lt.mp hlarge)
  · intro hbad
    cases hbad with
    | missing => rfl
    | malformed h => simp only [plainNumber?, Option.bind_eq_bind, Option.bind_some, h,
        Option.bind_none]
    | special h hd => rw [plainNumber?_some h, Decimal.toDatum?_of_not_isFinite hd]
    | overflow h hq hfraction hlarge =>
      rw [plainNumber?_some h, Decimal.toDatum?_of_fraction hq hfraction,
        if_neg (not_lt.mpr hlarge)]

/-- The plain data of a number are the datum for its value. -/
theorem isDatumOf_of_plainNumber? {text : Option String} {d : Datum}
    (h : plainNumber? text = some d) :
    ∃ s x q, text = some s ∧ Decimal.ofText? s = some x ∧ x.value? = some q ∧ IsDatumOf q d := by
  obtain ⟨s, rfl, h⟩ := Option.bind_eq_some_iff.mp h
  obtain ⟨x, hread, h⟩ := Option.bind_eq_some_iff.mp h
  cases hq : x.value? with
  | none =>
    rw [Decimal.toDatum?_of_not_isFinite (Decimal.isFinite_eq_false_of_value? hq)] at h
    cases h
  | some q =>
    refine ⟨s, x, q, rfl, hread, hq, ?_⟩
    by_cases hint : ∃ n : Int, q = n
    · obtain ⟨n, rfl⟩ := hint
      rw [Decimal.toDatum?_of_value? hq] at h
      obtain rfl := Option.some.inj h
      exact .int n
    · push Not at hint
      rw [Decimal.toDatum?_of_fraction hq hint] at h
      split at h
      · next hsmall =>
        obtain rfl := Option.some.inj h
        have hne : q ≠ 0 := by exact_mod_cast hint 0
        exact .float hint (Decimal.isNearest_toBinary64 hq hne hsmall)
      · cases h

-- ════════════════════════════════════════════════════════════════════════
-- Parts
-- ════════════════════════════════════════════════════════════════════════

/-- The typed values that stand directly within a value: the items of a sequence or the members of a
record. -/
def parts : TypedValue → List TypedValue
  | .sequence _ items => items.getD []
  | .record _ members => (members.getD []).map Prod.snd
  | _ => []

/-- The typed values that a value is made of: the value itself, and those that its parts are made
of. Nulls and unknown values have no parts, whatever their payload is. -/
inductive Reaches : TypedValue → TypedValue → Prop
  | refl (t : TypedValue) : Reaches t t
  | part {t p u : TypedValue} (hp : p ∈ t.parts) (hu : Reaches p u) : Reaches t u

/-- The values that have no plain data of their own: sets, values of foreign types, and numbers that
cannot be given. -/
inductive IsBad : TypedValue → Prop
  | set (items : Option (List TypedValue)) : IsBad (.sequence .set items)
  | foreign (tag : ForeignTag) (payload : Datum) : IsBad (.foreign tag payload)
  | number {text : Option String} (h : IsBadNumber text) : IsBad (.number text)

/-- The plain data that a value should have. -/
inductive Mirrors : TypedValue → Datum → Prop
  | null (payload : Datum) : Mirrors (.null payload) .null
  | unknown (payload : Datum) : Mirrors (.unknown payload) .null
  | string (payload : Datum) : Mirrors (.string payload) payload
  | bool (payload : Datum) : Mirrors (.bool payload) (.bool payload.truthy)
  | number {s : String} {x : Decimal} {q : ℚ} {d : Datum} (hread : Decimal.ofText? s = some x)
    (hq : x.value? = some q) (hd : IsDatumOf q d) : Mirrors (.number (some s)) d
  | sequence {kind : SequenceKind} {items : Option (List TypedValue)} {ds : List Datum}
    (hkind : kind ≠ .set) (h : List.Forall₂ Mirrors (items.getD []) ds) :
    Mirrors (.sequence kind items) (.list ds)
  | record {kind : RecordKind} {members : Option (List (Datum × TypedValue))}
    {ds : List (Datum × Datum)} (hkeys : ds.map Prod.fst = (members.getD []).map Prod.fst)
    (h : List.Forall₂ Mirrors ((members.getD []).map Prod.snd) (ds.map Prod.snd)) :
    Mirrors (.record kind members) (.map ds)

/-- What holds of a value whenever it holds of its parts holds of all values. -/
theorem induction_parts {P : TypedValue → Prop} (step : ∀ t, (∀ p ∈ t.parts, P p) → P t)
    (t : TypedValue) : P t :=
  step t fun p _ => induction_parts step p
termination_by sizeOf t
decreasing_by
  next hp =>
  cases t with
  | sequence kind items =>
    rcases items with _ | items
    · cases hp
    · have hitem : p ∈ items := hp
      have := List.sizeOf_lt_of_mem hitem
      simp only [sequence.sizeOf_spec, Option.some.sizeOf_spec]
      omega
  | record kind members =>
    rcases members with _ | members
    · cases hp
    · obtain ⟨m, hm, rfl⟩ : ∃ m ∈ members, m.2 = p := List.mem_map.mp hp
      have := List.sizeOf_lt_of_mem hm
      obtain ⟨k, t⟩ := m
      simp only [Prod.mk.sizeOf_spec] at this
      simp only [record.sizeOf_spec, Option.some.sizeOf_spec]
      omega
  | _ => cases hp

-- ════════════════════════════════════════════════════════════════════════
-- Failure
-- ════════════════════════════════════════════════════════════════════════

/-- The members of a record are given like the items of a sequence, each under its key. -/
theorem plainMembers?_eq (members : List (Datum × TypedValue)) :
    plainMembers? members =
      (plainItems? (members.map Prod.snd)).map ((members.map Prod.fst).zip ·) := by
  induction members with
  | nil => rfl
  | cons m rest ih =>
    obtain ⟨k, t⟩ := m
    simp only [List.map_cons, plainMembers?, plainItems?, ih]
    cases plain? t with
    | none => rfl
    | some d => cases plainItems? (rest.map Prod.snd) <;> rfl

/-- One item that has no plain data leaves a whole sequence without. -/
theorem plainItems?_eq_none_iff {items : List TypedValue} :
    plainItems? items = none ↔ ∃ t ∈ items, plain? t = none := by
  induction items with
  | nil => simp [plainItems?]
  | cons t rest ih =>
    cases ht : plain? t with
    | none => simp [plainItems?, ht]
    | some d =>
      cases hrest : plainItems? rest with
      | none => simpa [plainItems?, ht, hrest] using ih.mp hrest
      | some ds => simpa [plainItems?, ht, hrest] using mt ih.mpr (by simp [hrest])

theorem plain?_sequence (kind : SequenceKind) (items : Option (List TypedValue)) :
    (sequence kind items).plain? =
      if kind.isOrdered then (plainItems? (items.getD [])).map .list else none := by
  cases items with
  | none => rfl
  | some items => rfl

theorem plain?_record (kind : RecordKind) (members : Option (List (Datum × TypedValue))) :
    (record kind members).plain? =
      (plainItems? ((members.getD []).map Prod.snd)).map fun ds =>
        .map (((members.getD []).map Prod.fst).zip ds) := by
  cases members with
  | none => rfl
  | some members =>
    have hplain : (record kind (some members)).plain? = (plainMembers? members).map .map := rfl
    rw [hplain, plainMembers?_eq, Option.map_map]
    rfl

/-- A value has no plain data if and only if it is bad or a part of it has none. -/
theorem plain?_eq_none_iff_parts (t : TypedValue) :
    t.plain? = none ↔ t.IsBad ∨ ∃ p ∈ t.parts, p.plain? = none := by
  cases t with
  | null payload | unknown payload | string payload | bool payload =>
    exact iff_of_false nofun (by rintro (⟨⟨⟩⟩ | ⟨p, ⟨⟩, -⟩))
  | foreign tag payload => exact iff_of_true rfl (.inl (.foreign tag payload))
  | number text =>
    have hnumber : (number text).plain? = plainNumber? text := rfl
    rw [hnumber, plainNumber?_eq_none_iff]
    constructor
    · exact fun h => .inl (.number h)
    · rintro (⟨⟨⟩⟩ | ⟨p, ⟨⟩, -⟩)
      assumption
  | sequence kind items =>
    rw [plain?_sequence]
    cases kind with
    | set => exact iff_of_true rfl (.inl (.set items))
    | list | tuple =>
      show (plainItems? (items.getD [])).map Datum.list = none ↔ _
      rw [Option.map_eq_none_iff, plainItems?_eq_none_iff]
      exact (or_iff_right (by rintro ⟨⟩)).symm
  | record kind members =>
    rw [plain?_record, Option.map_eq_none_iff, plainItems?_eq_none_iff]
    exact (or_iff_right (by rintro ⟨⟩)).symm

/-- A value reaches a bad one if and only if it is bad itself or a part of it reaches one. -/
theorem exists_isBad_iff_parts (t : TypedValue) :
    (∃ u, t.Reaches u ∧ u.IsBad) ↔ t.IsBad ∨ ∃ p ∈ t.parts, ∃ u, p.Reaches u ∧ u.IsBad := by
  constructor
  · rintro ⟨u, hu, hbad⟩
    cases hu with
    | refl => exact .inl hbad
    | part hp hu => exact .inr ⟨_, hp, u, hu, hbad⟩
  · rintro (hbad | ⟨p, hp, u, hu, hbad⟩)
    · exact ⟨t, .refl t, hbad⟩
    · exact ⟨u, .part hp hu, hbad⟩

/-- A value has no plain data if and only if it is made of values one of which is bad. -/
theorem plain?_eq_none_iff (t : TypedValue) :
    t.plain? = none ↔ ∃ u, t.Reaches u ∧ u.IsBad := by
  induction t using induction_parts with
  | step t ih =>
    rw [plain?_eq_none_iff_parts, exists_isBad_iff_parts]
    exact or_congr_right (exists_congr fun p => and_congr_right fun hp => ih p hp)

-- ════════════════════════════════════════════════════════════════════════
-- Success
-- ════════════════════════════════════════════════════════════════════════

/-- If the plain data of the parts mirror the parts, those of the items do. -/
theorem forall₂_mirrors_of_plainItems? {items : List TypedValue} {ds : List Datum}
    (hparts : ∀ p ∈ items, ∀ d, p.plain? = some d → p.Mirrors d) (h : plainItems? items = some ds) :
    List.Forall₂ Mirrors items ds := by
  induction items generalizing ds with
  | nil =>
    obtain rfl := Option.some.inj h
    exact .nil
  | cons t rest ih =>
    obtain ⟨d, others, hd, hothers, rfl⟩ := plainItems?_cons_eq_some.mp h
    exact .cons (hparts t (List.mem_cons_self ..) d hd)
      (ih (fun p hp => hparts p (List.mem_cons_of_mem _ hp)) hothers)

/-- The plain data of a value mirror it if those of its parts mirror the parts. -/
theorem mirrors_of_parts {t : TypedValue} {d : Datum}
    (hparts : ∀ p ∈ t.parts, ∀ d, p.plain? = some d → p.Mirrors d) (h : t.plain? = some d) :
    t.Mirrors d := by
  cases t with
  | null payload => obtain rfl := Option.some.inj h; exact .null payload
  | unknown payload => obtain rfl := Option.some.inj h; exact .unknown payload
  | string payload => obtain rfl := Option.some.inj h; exact .string payload
  | bool payload => obtain rfl := Option.some.inj h; exact .bool payload
  | foreign tag payload => cases h
  | number text =>
    obtain ⟨s, x, q, rfl, hread, hq, hd⟩ := isDatumOf_of_plainNumber? h
    exact .number hread hq hd
  | sequence kind items =>
    rw [plain?_sequence] at h
    split at h
    · next hordered =>
      obtain ⟨ds, hds, rfl⟩ := Option.map_eq_some_iff.mp h
      refine .sequence ?_ (forall₂_mirrors_of_plainItems? hparts hds)
      rintro rfl
      cases hordered
    · cases h
  | record kind members =>
    rw [plain?_record] at h
    obtain ⟨ds, hds, rfl⟩ := Option.map_eq_some_iff.mp h
    have hmirrors : List.Forall₂ Mirrors ((members.getD []).map Prod.snd) ds :=
      forall₂_mirrors_of_plainItems? hparts hds
    have hlength := hmirrors.length_eq
    rw [List.length_map] at hlength
    refine .record ?_ ?_
    · exact List.map_fst_zip (by rw [List.length_map, hlength])
    · rwa [List.map_snd_zip (by rw [List.length_map, hlength])]

/-- The plain data of a value mirror it. -/
theorem mirrors_of_plain? {t : TypedValue} {d : Datum} (h : t.plain? = some d) : t.Mirrors d := by
  induction t using induction_parts generalizing d with
  | step t ih => exact mirrors_of_parts (fun p hp d hd => ih p hp hd) h

end TypedValue

/-- The number of items of a list or members of a mapping. -/
def Datum.size? : Datum → Option Nat
  | .list items => some items.length
  | .map entries => some entries.length
  | _ => none

namespace TypedValue

/-- A sequence or a record is mirrored by data of the same size. -/
theorem Mirrors.size?_eq {t : TypedValue} {d : Datum} (h : t.Mirrors d) {n : Nat}
    (hn : t.length? = some n) : d.size? = some n := by
  cases h with
  | null | unknown | string | bool | number => cases hn
  | sequence hkind hitems =>
    obtain rfl := Option.some.inj hn
    rw [Datum.size?, hitems.length_eq]
  | record hkeys hmembers =>
    obtain rfl := Option.some.inj hn
    have hlength := congrArg List.length hkeys
    rw [List.length_map, List.length_map] at hlength
    rw [Datum.size?, hlength]

/-- A value has plain data if and only if none of the values that it is made of is bad, and the data
then mirror the value, with as many items or members. -/
theorem plain?_isSome_iff_and_mirrors (t : TypedValue) :
    (t.plain?.isSome = true ↔ ∀ u, t.Reaches u → ¬u.IsBad) ∧
      ∀ d ∈ t.plain?, t.Mirrors d ∧ ∀ n ∈ t.length?, d.size? = some n := by
  constructor
  · rw [← Option.ne_none_iff_isSome, ne_eq, plain?_eq_none_iff]
    push Not
    rfl
  · intro d hd
    have hmirrors := mirrors_of_plain? hd
    exact ⟨hmirrors, fun n hn => hmirrors.size?_eq hn⟩

end TypedValue

end BlockDoc
