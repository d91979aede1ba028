import BlockDoc.Datum.Basic

/-!
# Data of JSON texts

JSON has no infinities, no `nan`, and no names of members other than strings. The data that it can
carry are those without any of these, at any depth.

## Main definitions

* `Datum.IsJson` — the data that JSON can carry
-/

namespace BlockDoc

namespace Datum

/-- The data that JSON can carry: null, booleans, integers, finite floating-point numbers, strings,
lists of such data, and mappings from strings to such data. -/
inductive IsJson : Datum → Prop
  | null : IsJson .null
  | bool (b : Bool) : IsJson (.bool b)
  | int (n : Int) : IsJson (.int n)
  | float {x : Binary64} (hx : x.isFinite = true) : IsJson (.float x)
  | str (s : String) : IsJson (.str s)
  | list {items : List Datum} (hitems : ∀ d ∈ items, IsJson d) : IsJson (.list items)
  | map {entries : List (Datum × Datum)} (hkeys : ∀ e ∈ entries, ∃ s, e.1 = .str s)
      (hvalues : ∀ e ∈ entries, IsJson e.2) : IsJson (.map entries)

/-- A mapping whose keys are given as strings is JSON data if its values are. -/
theorem IsJson.object {entries : List (String × Datum)} (h : ∀ e ∈ entries, IsJson e.2) :
    IsJson (object entries) := by
  refine .map ?_ ?_
  · intro e he
    obtain ⟨f, -, rfl⟩ := List.mem_map.mp he
    exact ⟨f.1, rfl⟩
  · intro e he
    obtain ⟨f, hf, rfl⟩ := List.mem_map.mp he
    exact h f hf

theorem field?_object (entries : List (String × Datum)) (name : String) :
    (object entries).field? name = Table.find? entries name := by
  unfold object field? member?
  induction entries with
  | nil => rfl
  | cons e rest ih =>
    obtain ⟨k, d⟩ := e
    have hkey : (Datum.str k == Datum.str name) = (k == name) := rfl
    simp only [List.map_cons, Table.find?, hkey, ih]

end Datum

end BlockDoc
