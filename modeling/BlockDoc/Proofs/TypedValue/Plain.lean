import BlockDoc.Proofs.Json.Data
import BlockDoc.TypedValue.Plain

/-!
# Plain data of typed values are JSON data

A typed value keeps some payloads as they have come, so that not every one has a place in JSON. It
is textual if what is tagged as a string is a text and the members of its records stand under texts.
Every fault of a number, infinities and numbers that round to infinity among them, leaves a textual
value without plain data, and all plain data that it has are JSON data.

## Main definitions

* `TypedValue.isTextual` — whether strings and the keys of members are texts, at any depth
-/

namespace BlockDoc

namespace Datum

/-- Whether a value is a string. -/
def isText : Datum → Bool
  | .str _ => true
  | _ => false

theorem exists_str_of_isText {d : Datum} (h : d.isText = true) : ∃ s, d = .str s := by
  cases d with
  | str s => exact ⟨s, rfl⟩
  | _ => cases h

end Datum

namespace TypedValue

mutual

/-- Whether the payload of each string is a text or absent, and each member of a record stands under
a text, at any depth. -/
def isTextual : TypedValue → Bool
  | .string payload => payload.isNull || payload.isText
  | .sequence _ (some items) => areTextual items
  | .record _ (some members) => membersTextual members
  | _ => true
termination_by structural t => t

/-- Whether the items of a sequence are textual. -/
def areTextual : List TypedValue → Bool
  | [] => true
  | t :: rest => isTextual t && areTextual rest
termination_by structural items => items

/-- Whether the members of a record stand under texts and are textual. -/
def membersTextual : List (Datum × TypedValue) → Bool
  | [] => true
  | (k, t) :: rest => k.isText && isTextual t && membersTextual rest
termination_by structural members => members

end

end TypedValue

-- ════════════════════════════════════════════════════════════════════════
-- Numbers
-- ════════════════════════════════════════════════════════════════════════

/-- A number that can be given as data is an integer or a finite floating-point number. -/
theorem Decimal.isJson_of_toDatum? {x : Decimal} {d : Datum} (h : x.toDatum? = some d) :
    d.IsJson := by
  unfold toDatum? at h
  cases hint : x.toInt? with
  | some n =>
    rw [hint] at h
    obtain rfl := Option.some.inj h
    exact .int n
  | none =>
    rw [hint] at h
    dsimp only at h
    unfold Binary64.toDatum? at h
    split at h
    · next hfinite =>
      obtain rfl := Option.some.inj h
      exact .float hfinite
    · cases h

namespace TypedValue

theorem isJson_of_plainNumber? {text : Option String} {d : Datum}
    (h : plainNumber? text = some d) : d.IsJson := by
  obtain ⟨s, -, h⟩ := Option.bind_eq_some_iff.mp h
  obtain ⟨x, -, h⟩ := Option.bind_eq_some_iff.mp h
  exact Decimal.isJson_of_toDatum? h

-- ════════════════════════════════════════════════════════════════════════
-- All values
-- ════════════════════════════════════════════════════════════════════════

theorem plainItems?_cons_eq_some {t : TypedValue} {rest : List TypedValue} {ds : List Datum} :
    plainItems? (t :: rest) = some ds ↔
      ∃ d others, plain? t = some d ∧ plainItems? rest = some others ∧ d :: others = ds := by
  simp [plainItems?, Option.bind_eq_some_iff]

theorem plainMembers?_cons_eq_some {k : Datum} {t : TypedValue}
    {rest : List (Datum × TypedValue)} {ds : List (Datum × Datum)} :
    plainMembers? ((k, t) :: rest) = some ds ↔
      ∃ d others, plain? t = some d ∧ plainMembers? rest = some others ∧
        (k, d) :: others = ds := by
  simp [plainMembers?, Option.bind_eq_some_iff]

mutual

/-- The plain data of a textual value are JSON data. -/
theorem isJson_of_plain? :
    (t : TypedValue) → t.isTextual = true → {d : Datum} → plain? t = some d → d.IsJson
  | .null _, _, d, h => by
    obtain rfl := Option.some.inj h
    exact .null
  | .unknown _, _, d, h => by
    obtain rfl := Option.some.inj h
    exact .null
  | .string payload, ht, d, h => by
    obtain rfl : payload = d := Option.some.inj h
    cases payload with
    | null => exact .null
    | str s => exact .str s
    | _ => cases ht
  | .number text, _, d, h => isJson_of_plainNumber? h
  | .bool payload, _, d, h => by
    obtain rfl := Option.some.inj h
    exact .bool _
  | .sequence kind none, _, d, h => by
    simp only [plain?, Option.ite_none_right_eq_some, Option.some.injEq] at h
    rw [← h.2]
    exact .list (by simp)
  | .sequence kind (some items), ht, d, h => by
    simp only [plain?, Option.ite_none_right_eq_some, Option.map_eq_some_iff] at h
    obtain ⟨-, ds, hds, rfl⟩ := h
    exact .list (isJson_of_plainItems? items ht hds)
  | .record _ none, _, d, h => by
    obtain rfl := Option.some.inj h
    exact .map (by simp) (by simp)
  | .record _ (some members), ht, d, h => by
    obtain ⟨ds, hds, rfl⟩ := Option.map_eq_some_iff.mp h
    exact isJson_of_plainMembers? members ht hds
  | .foreign _ _, _, d, h => by cases h
termination_by structural t => t

theorem isJson_of_plainItems? :
    (items : List TypedValue) → areTextual items = true → {ds : List Datum} →
      plainItems? items = some ds → ∀ d ∈ ds, d.IsJson
  | [], _, ds, h => by
    obtain rfl := Option.some.inj h
    simp
  | t :: rest, ht, ds, h => by
    obtain ⟨d, others, hd, hothers, rfl⟩ := plainItems?_cons_eq_some.mp h
    obtain ⟨htext, hrest⟩ := Bool.and_eq_true_iff.mp ht
    exact List.forall_mem_cons.mpr
      ⟨isJson_of_plain? t htext hd, isJson_of_plainItems? rest hrest hothers⟩
termination_by structural items => items

theorem isJson_of_plainMembers? :
    (members : List (Datum × TypedValue)) → membersTextual members = true →
      {ds : List (Datum × Datum)} → plainMembers? members = some ds → (Datum.map ds).IsJson
  | [], _, ds, h => by
    obtain rfl := Option.some.inj h
    exact .map (by simp) (by simp)
  | (k, t) :: rest, ht, ds, h => by
    obtain ⟨d, others, hd, hothers, rfl⟩ := plainMembers?_cons_eq_some.mp h
    obtain ⟨hhead, hrest⟩ := Bool.and_eq_true_iff.mp ht
    obtain ⟨hkey, htext⟩ := Bool.and_eq_true_iff.mp hhead
    cases isJson_of_plainMembers? rest hrest hothers with
    | map hkeys hvalues =>
      exact .map (List.forall_mem_cons.mpr ⟨Datum.exists_str_of_isText hkey, hkeys⟩)
        (List.forall_mem_cons.mpr ⟨isJson_of_plain? t htext hd, hvalues⟩)
termination_by structural members => members

end

end TypedValue

end BlockDoc
