import BlockDoc.Proofs.TypedValue.Mirror
import BlockDoc.Proofs.Validation.Breakdown

/-!
# Typed values that are read again

Data give a typed value leniently: a payload may be left out, a number may be given by something
else than a text, and a sequence without items by an empty text or an empty mapping. What is
written for a value is strict in all of this, at every depth, and gives the same value again.

## Main definitions

* `Datum.IsTagged` — data with a tag and a payload
* `Datum.IsStrict` — data with the payloads that their tags call for, at every depth
* `TypedValue.IsGivenBy` — which data give a value

## Main results

* `TypedValue.check_eq_valid_iff_isGivenBy` — exactly these data are read as the value
* `TypedValue.isStrict_dump` — what is written for a value is strict
* `TypedValue.check_eq_valid_iff_isStable` — both, and what is written is read as the value
-/

namespace BlockDoc

namespace Datum

/-- Data are a mapping with a tag and a payload, which is null if it is left out. -/
def IsTagged (d : Datum) (name : String) (payload : Datum) : Prop :=
  d.field? "type" = some (.str name) ∧ (d.field? "value").getD .null = payload

/-- Mappings of a tag and the payload that it calls for, at every depth: a text for a number, a list
of such mappings for a sequence, and a mapping with such members for a record, or null in place of
these. Other tags call for nothing. -/
inductive IsStrict : Datum → Prop
  | other {name : String} (payload : Datum) (hnumber : name ≠ Tag.number.name)
    (hsequence : ∀ kind, name ≠ SequenceKind.name kind)
    (hrecord : ∀ kind, name ≠ RecordKind.name kind) : IsStrict (TypedValue.pack name payload)
  | noNumber : IsStrict (TypedValue.pack Tag.number.name .null)
  | number (s : String) : IsStrict (TypedValue.pack Tag.number.name (.str s))
  | noItems (kind : SequenceKind) : IsStrict (TypedValue.pack kind.name .null)
  | sequence {kind : SequenceKind} {items : List Datum} (h : ∀ d ∈ items, IsStrict d) :
    IsStrict (TypedValue.pack kind.name (.list items))
  | noMembers (kind : RecordKind) : IsStrict (TypedValue.pack kind.name .null)
  | record {kind : RecordKind} {entries : List (Datum × Datum)}
    (h : ∀ e ∈ entries, IsStrict e.2) : IsStrict (TypedValue.pack kind.name (.map entries))

end Datum

namespace TypedValue

/-- The payload that a value keeps as it has come. -/
def kept? : TypedValue → Option Datum
  | .null payload | .unknown payload | .string payload | .bool payload | .foreign _ payload =>
    some payload
  | .number _ | .sequence _ _ | .record _ _ => none

/-- A value is given by data with its tag. The members of a record stand under the keys of the
payload, in the same order. -/
inductive IsGivenBy : TypedValue → Datum → Prop
  | kept {t : TypedValue} {d payload : Datum} (ht : t.kept? = some payload)
    (hd : d.IsTagged t.typeName payload) : IsGivenBy t d
  | noNumber {d : Datum} (hd : d.IsTagged Tag.number.name .null) : IsGivenBy (.number none) d
  | number {d : Datum} {s : String} (hd : d.IsTagged Tag.number.name (.str s)) :
    IsGivenBy (.number (some s)) d
  | literal {d payload : Datum} (hd : d.IsTagged Tag.number.name payload)
    (hnull : payload.isNull = false) (htext : payload.isText = false) :
    IsGivenBy (.number (some payload.literal)) d
  | noItems {kind : SequenceKind} {d : Datum} (hd : d.IsTagged kind.name .null) :
    IsGivenBy (.sequence kind none) d
  | sequence {kind : SequenceKind} {ts : List TypedValue} {d : Datum} {items : List Datum}
    (hd : d.IsTagged kind.name (.list items)) (h : List.Forall₂ IsGivenBy ts items) :
    IsGivenBy (.sequence kind (some ts)) d
  | emptyText {kind : SequenceKind} {d : Datum} (hd : d.IsTagged kind.name (.str "")) :
    IsGivenBy (.sequence kind (some [])) d
  | emptyMapping {kind : SequenceKind} {d : Datum} (hd : d.IsTagged kind.name (.map [])) :
    IsGivenBy (.sequence kind (some [])) d
  | noMembers {kind : RecordKind} {d : Datum} (hd : d.IsTagged kind.name .null) :
    IsGivenBy (.record kind none) d
  | record {kind : RecordKind} {ms : List (Datum × TypedValue)} {d : Datum}
    {entries : List (Datum × Datum)} (hd : d.IsTagged kind.name (.map entries))
    (hkeys : ms.map Prod.fst = entries.map Prod.fst)
    (h : List.Forall₂ IsGivenBy (ms.map Prod.snd) (entries.map Prod.snd)) :
    IsGivenBy (.record kind (some ms)) d

-- ════════════════════════════════════════════════════════════════════════
-- Tags and payloads
-- ════════════════════════════════════════════════════════════════════════

section Payloads

variable {d payload : Datum} {t : TypedValue}

theorem isTagged_pack (name : String) (payload : Datum) :
    (pack name payload).IsTagged name payload :=
  ⟨rfl, rfl⟩

/-- Data with a known tag are checked by their tag and their payload. -/
theorem check_of_isTagged (tag : Tag) (h : d.IsTagged tag.name payload) :
    check d = checkPayload tag payload := by
  obtain ⟨htype, rfl⟩ := h
  cases d with
  | map entries => exact check_of_ofName? htype (Tag.ofName?_name tag)
  | _ => cases htype

/-- Data with a tag that is not understood are kept with it. -/
theorem check_of_isTagged_foreign {tag : ForeignTag} (h : d.IsTagged tag.name payload) :
    check d = .valid (.foreign tag payload) := by
  obtain ⟨htype, rfl⟩ := h
  cases d with
  | map entries =>
    rw [check_of_type htype]
    split
    · next known hknown =>
      rw [tag.isForeign] at hknown
      cases hknown
    · rfl
  | _ => cases htype

/-- Data that are read have a tag, which is a known one or kept together with the payload. -/
theorem exists_isTagged_of_check (h : check d = .valid t) :
    (∃ tag payload, d.IsTagged (Tag.name tag) payload ∧ checkPayload tag payload = .valid t) ∨
      ∃ tag payload, d.IsTagged (ForeignTag.name tag) payload ∧ t = .foreign tag payload := by
  cases d with
  | map entries =>
    have hcheck := h
    unfold check at h
    split at h
    · cases h
    · next name htype =>
      rw [check_of_type htype] at hcheck
      split at hcheck
      · next tag htag =>
        refine .inl ⟨tag, _, ⟨?_, rfl⟩, hcheck⟩
        rw [Tag.name_of_ofName? htag]
        exact htype
      · next htag => exact .inr ⟨⟨name, htag⟩, _, ⟨htype, rfl⟩, (Checked.valid.inj hcheck).symm⟩
    · cases h
  | _ => cases h

theorem checkItems_eq_valid_iff {items : List Datum} {ts : List TypedValue} :
    checkItems items = .valid ts ↔ List.Forall₂ (fun t d => check d = .valid t) ts items := by
  induction items generalizing ts with
  | nil =>
    rw [List.forall₂_nil_right_iff]
    exact ⟨fun h => (Checked.valid.inj h).symm, fun h => h ▸ rfl⟩
  | cons d rest ih =>
    rw [checkItems, Checked.andThen_eq_valid]
    simp only [Checked.map_eq_valid, ih]
    constructor
    · rintro ⟨t, ht, ts, hts, rfl⟩
      exact .cons ht hts
    · rintro (_ | ⟨ht, hts⟩)
      exact ⟨_, ht, _, hts, rfl⟩

/-- The members of a mapping keep their keys, and their values are checked as items are. -/
theorem checkMembers_eq_valid_iff {entries : List (Datum × Datum)}
    {ms : List (Datum × TypedValue)} :
    checkMembers entries = .valid ms ↔ ms.map Prod.fst = entries.map Prod.fst ∧
      checkItems (entries.map Prod.snd) = .valid (ms.map Prod.snd) := by
  induction entries generalizing ms with
  | nil =>
    rw [List.map_nil, List.map_eq_nil_iff]
    constructor
    · intro h
      obtain rfl := Checked.valid.inj h
      exact ⟨rfl, rfl⟩
    · rintro ⟨rfl, -⟩
      rfl
  | cons e rest ih =>
    obtain ⟨k, v⟩ := e
    rw [checkMembers, List.map_cons, List.map_cons, checkItems, Checked.andThen_eq_valid,
      Checked.andThen_eq_valid]
    simp only [Checked.map_eq_valid, ih]
    constructor
    · rintro ⟨t, ht, ms, ⟨hkeys, hms⟩, rfl⟩
      exact ⟨by rw [List.map_cons, hkeys], t, ht, _, hms, rfl⟩
    · rintro ⟨hkeys, t, ht, ts, hts, hcons⟩
      cases ms with
      | nil => cases hkeys
      | cons m ms =>
        obtain ⟨rfl, htail⟩ := List.cons.inj hkeys
        obtain ⟨rfl, rfl⟩ := List.cons.inj hcons
        exact ⟨_, ht, ms, ⟨htail, hts⟩, rfl⟩

end Payloads

-- ════════════════════════════════════════════════════════════════════════
-- Reading
-- ════════════════════════════════════════════════════════════════════════

section Reading

variable {d payload : Datum} {t : TypedValue}

/-- Items that are read are given by the items of the list, if this is so of each. -/
theorem forall₂_isGivenBy_of_checkItems {items : List Datum} {ts : List TypedValue}
    (hparts : ∀ t ∈ ts, ∀ d, check d = .valid t → t.IsGivenBy d)
    (h : checkItems items = .valid ts) : List.Forall₂ IsGivenBy ts items :=
  ((List.forall₂_and_left ts items).mpr ⟨hparts, checkItems_eq_valid_iff.mp h⟩).imp
    fun _ d ht => ht.1 d ht.2

theorem isGivenBy_of_sequence {kind : SequenceKind} (hd : d.IsTagged kind.name payload)
    (hparts : ∀ p ∈ t.parts, ∀ d, check d = .valid p → p.IsGivenBy d)
    (h : checkPayload (.sequence kind) payload = .valid t) : t.IsGivenBy d := by
  cases payload with
  | null =>
    obtain rfl := Checked.valid.inj h
    exact .noItems hd
  | str s =>
    change emptySequence kind s.toList.isEmpty = .valid t at h
    unfold emptySequence at h
    split at h
    · next hs =>
      obtain rfl := Checked.valid.inj h
      have hs : s = "" := by simpa using hs
      exact .emptyText (hs ▸ hd)
    · cases h
  | list items =>
    obtain ⟨ts, hts, rfl⟩ := Checked.map_eq_valid.mp h
    exact .sequence hd (forall₂_isGivenBy_of_checkItems hparts hts)
  | map entries =>
    change emptySequence kind entries.isEmpty = .valid t at h
    unfold emptySequence at h
    split at h
    · next hs =>
      obtain rfl := Checked.valid.inj h
      exact .emptyMapping (List.isEmpty_iff.mp hs ▸ hd)
    · cases h
  | _ => cases h

theorem isGivenBy_of_record {kind : RecordKind} (hd : d.IsTagged kind.name payload)
    (hparts : ∀ p ∈ t.parts, ∀ d, check d = .valid p → p.IsGivenBy d)
    (h : checkPayload (.record kind) payload = .valid t) : t.IsGivenBy d := by
  cases payload with
  | null =>
    obtain rfl := Checked.valid.inj h
    exact .noMembers hd
  | map entries =>
    obtain ⟨ms, hms, rfl⟩ := Checked.map_eq_valid.mp h
    obtain ⟨hkeys, hvalues⟩ := checkMembers_eq_valid_iff.mp hms
    exact .record hd hkeys (forall₂_isGivenBy_of_checkItems hparts hvalues)
  | _ => cases h

theorem isGivenBy_of_number (hd : d.IsTagged Tag.number.name payload)
    (h : checkPayload .number payload = .valid t) : t.IsGivenBy d := by
  cases payload with
  | null =>
    obtain rfl := Checked.valid.inj h
    exact .noNumber hd
  | str s =>
    obtain rfl := Checked.valid.inj h
    exact .number hd
  | _ =>
    obtain rfl := Checked.valid.inj h
    exact .literal hd rfl rfl

/-- What is read from data is given by them. -/
theorem isGivenBy_of_check (h : check d = .valid t) : t.IsGivenBy d := by
  induction t using induction_parts generalizing d with
  | step t ih =>
    have hparts : ∀ p ∈ t.parts, ∀ d, check d = .valid p → p.IsGivenBy d :=
      fun p hp d hd => ih p hp hd
    rcases exists_isTagged_of_check h with ⟨tag, payload, hd, h⟩ | ⟨tag, payload, hd, rfl⟩
    · cases tag with
      | number => exact isGivenBy_of_number hd h
      | sequence kind => exact isGivenBy_of_sequence hd hparts h
      | record kind => exact isGivenBy_of_record hd hparts h
      | null | unknown | string | bool =>
        cases payload <;>
        · obtain rfl := Checked.valid.inj h
          exact .kept rfl hd
    · exact .kept rfl hd

theorem checkItems_of_forall₂_isGivenBy {items : List Datum} {ts : List TypedValue}
    (hparts : ∀ t ∈ ts, ∀ d, t.IsGivenBy d → check d = .valid t)
    (h : List.Forall₂ IsGivenBy ts items) : checkItems items = .valid ts :=
  checkItems_eq_valid_iff.mpr <|
    ((List.forall₂_and_left ts items).mpr ⟨hparts, h⟩).imp fun _ d ht => ht.1 d ht.2

/-- The payload of a value that keeps it is of no account for the check. -/
theorem check_of_kept {t : TypedValue} (ht : t.kept? = some payload)
    (hd : d.IsTagged t.typeName payload) : check d = .valid t := by
  cases t with
  | foreign tag kept =>
    obtain rfl := Option.some.inj ht
    exact check_of_isTagged_foreign hd
  | null kept =>
    obtain rfl := Option.some.inj ht
    exact (check_of_isTagged .null hd).trans (by cases kept <;> rfl)
  | unknown kept =>
    obtain rfl := Option.some.inj ht
    exact (check_of_isTagged .unknown hd).trans (by cases kept <;> rfl)
  | string kept =>
    obtain rfl := Option.some.inj ht
    exact (check_of_isTagged .string hd).trans (by cases kept <;> rfl)
  | bool kept =>
    obtain rfl := Option.some.inj ht
    exact (check_of_isTagged .bool hd).trans (by cases kept <;> rfl)
  | _ => cases ht

/-- Data that give a value are read as it. -/
theorem check_of_isGivenBy (h : t.IsGivenBy d) : check d = .valid t := by
  induction t using induction_parts generalizing d with
  | step t ih =>
    have hparts : ∀ p ∈ t.parts, ∀ d, p.IsGivenBy d → check d = .valid p :=
      fun p hp d hd => ih p hp hd
    cases h with
    | kept ht hd => exact check_of_kept ht hd
    | noNumber hd | number hd => exact check_of_isTagged .number hd
    | @literal d payload hd hnull htext =>
      rw [check_of_isTagged .number hd]
      cases payload with
      | null => cases hnull
      | str s => cases htext
      | _ => rfl
    | @noItems kind d hd => exact check_of_isTagged (.sequence kind) hd
    | @emptyText kind d hd => exact check_of_isTagged (.sequence kind) hd
    | @emptyMapping kind d hd => exact check_of_isTagged (.sequence kind) hd
    | @noMembers kind d hd => exact check_of_isTagged (.record kind) hd
    | @sequence kind ts d items hd h =>
      have hitems := checkItems_of_forall₂_isGivenBy hparts h
      rw [check_of_isTagged (.sequence kind) hd, checkPayload, hitems]
      rfl
    | @record kind ms d entries hd hkeys h =>
      have hmembers := checkMembers_eq_valid_iff.mpr
        ⟨hkeys, checkItems_of_forall₂_isGivenBy hparts h⟩
      rw [check_of_isTagged (.record kind) hd, checkPayload, hmembers]
      rfl

/-- A value is read from the data that give it, and from no others. -/
theorem check_eq_valid_iff_isGivenBy : check d = .valid t ↔ t.IsGivenBy d :=
  ⟨isGivenBy_of_check, check_of_isGivenBy⟩

end Reading

-- ════════════════════════════════════════════════════════════════════════
-- Writing
-- ════════════════════════════════════════════════════════════════════════

theorem dumpItems_eq_map (ts : List TypedValue) : dumpItems ts = ts.map dump := by
  induction ts with
  | nil => rfl
  | cons t rest ih => rw [dumpItems, List.map_cons, ih]

theorem dumpMembers_eq_map (ms : List (Datum × TypedValue)) :
    dumpMembers ms = ms.map fun m => (m.1, dump m.2) := by
  induction ms with
  | nil => rfl
  | cons m rest ih =>
    obtain ⟨k, t⟩ := m
    rw [dumpMembers, List.map_cons, ih]

/-- A value is given by what is written for it. -/
theorem isGivenBy_dump (t : TypedValue) : t.IsGivenBy t.dump := by
  induction t using induction_parts with
  | step t ih =>
    cases t with
    | null payload | unknown payload | string payload | bool payload | foreign tag payload =>
      exact .kept rfl (isTagged_pack _ payload)
    | number text =>
      cases text with
      | none => exact .noNumber (isTagged_pack _ _)
      | some s => exact .number (isTagged_pack _ _)
    | sequence kind items =>
      cases items with
      | none => exact .noItems (isTagged_pack _ _)
      | some ts =>
        refine .sequence (isTagged_pack _ _) ?_
        rw [dumpItems_eq_map, List.forall₂_map_right_iff, List.forall₂_same]
        exact ih
    | record kind members =>
      cases members with
      | none => exact .noMembers (isTagged_pack _ _)
      | some ms =>
        refine .record (isTagged_pack _ _) ?_ ?_
        · rw [dumpMembers_eq_map, List.map_map]
          rfl
        · have hvalues : (dumpMembers ms).map Prod.snd = (ms.map Prod.snd).map dump := by
            rw [dumpMembers_eq_map, List.map_map, List.map_map]
            rfl
          rw [hvalues, List.forall₂_map_right_iff, List.forall₂_same]
          exact ih

/-- The tag of a value whose payload is kept calls for nothing. -/
theorem isStrict_pack_of_foreign (tag : ForeignTag) (payload : Datum) :
    (pack tag.name payload).IsStrict := by
  have hne : ∀ known : Tag, tag.name ≠ known.name := by
    intro known hname
    have hforeign := tag.isForeign
    rw [hname, Tag.ofName?_name] at hforeign
    cases hforeign
  exact .other payload (hne .number) (fun kind => hne (.sequence kind))
    fun kind => hne (.record kind)

/-- What is written for a value is strict. -/
theorem isStrict_dump (t : TypedValue) : t.dump.IsStrict := by
  induction t using induction_parts with
  | step t ih =>
    cases t with
    | null payload | unknown payload | string payload | bool payload =>
      exact .other payload (by decide) (fun kind => by cases kind <;> decide)
        fun kind => by cases kind <;> decide
    | foreign tag payload => exact isStrict_pack_of_foreign tag payload
    | number text =>
      cases text with
      | none => exact .noNumber
      | some s => exact .number s
    | sequence kind items =>
      cases items with
      | none => exact .noItems kind
      | some ts =>
        refine .sequence fun d hd => ?_
        rw [dumpItems_eq_map] at hd
        obtain ⟨t, ht, rfl⟩ := List.mem_map.mp hd
        exact ih t ht
    | record kind members =>
      cases members with
      | none => exact .noMembers kind
      | some ms =>
        refine .record fun e he => ?_
        rw [dumpMembers_eq_map] at he
        obtain ⟨m, hm, rfl⟩ := List.mem_map.mp he
        exact ih m.2 (List.mem_map_of_mem hm)

-- ════════════════════════════════════════════════════════════════════════
-- Stability
-- ════════════════════════════════════════════════════════════════════════

/-- A value that is read from data has its payloads from them, and what is written for it is strict
and is read as the same value. -/
structure IsStable (d : Datum) (t : TypedValue) : Prop where
  given : t.IsGivenBy d
  strict : t.dump.IsStrict
  reload : check t.dump = .valid t

/-- A value is read from data if and only if it is a stable one that they give. -/
theorem check_eq_valid_iff_isStable (d : Datum) (t : TypedValue) :
    check d = .valid t ↔ IsStable d t := by
  constructor
  · intro h
    exact ⟨isGivenBy_of_check h, isStrict_dump t, check_of_isGivenBy (isGivenBy_dump t)⟩
  · intro h
    exact check_of_isGivenBy h.given

/-- A number that is given by a truth value, a list without items that is given by an empty text,
and a tag that is not understood. -/
example : check (pack "tuple" (.list [pack "number" (.bool true), pack "list" (.str ""),
      .object [("type", .str "dynamic")]])) =
    .valid (.sequence .tuple (some [.number (some "True"), .sequence .list (some []),
      .foreign ⟨"dynamic", rfl⟩ .null])) :=
  rfl

end TypedValue

end BlockDoc
