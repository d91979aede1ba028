import BlockDoc.Document.Basic
import BlockDoc.Proofs.Table
import Mathlib.Data.List.Induction

/-!
# Grouping by keys

A collection holds, under each key, the items that have been filed under it, and nothing else: it is
the list of items grouped by key, the keys in the order of their first items.
-/

namespace BlockDoc

namespace Collection

variable {α : Type}

theorem ofItems_concat (items : List (String × α)) (e : String × α) :
    ofItems (items ++ [e]) = Table.extend (ofItems items) e.1 e.2 := by
  rw [ofItems, List.foldl_append, List.foldl_cons, List.foldl_nil, ofItems]

/-- The items that have been filed under a key. -/
def under (items : List (String × α)) (key : String) : List α :=
  (items.filter fun e => e.1 = key).map Prod.snd

theorem under_concat (items : List (String × α)) (e : String × α) (key : String) :
    under (items ++ [e]) key = under items key ++ if e.1 = key then [e.2] else [] := by
  by_cases h : e.1 = key <;> simp [under, List.filter_append, h]

theorem under_map {β : Type} (items : List (String × α)) (f : α → β) (key : String) :
    under (items.map fun e => (e.1, f e.2)) key = (under items key).map f := by
  rw [under, under, List.filter_map, List.map_map, List.map_map]
  rfl

/-- Under a key stand the items that have been filed under it, in order, if there are any. -/
theorem find?_ofItems (items : List (String × α)) (key : String) :
    Table.find? (ofItems items) key =
      if under items key = [] then none else some (under items key) := by
  induction items using List.reverseRecOn with
  | nil => rfl
  | append_singleton items e ih =>
    rw [ofItems_concat, Table.find?_extend, under_concat]
    by_cases h : e.1 = key
    · subst h
      rw [ih]
      by_cases hu : under items e.1 = [] <;> simp [hu]
    · simp [h, ih]

/-- An item that has been filed is found under its key. -/
theorem exists_find?_ofItems {items : List (String × α)} {key : String} {item : α}
    (h : (key, item) ∈ items) : ∃ xs, Table.find? (ofItems items) key = some xs ∧ item ∈ xs := by
  have hmem : item ∈ under items key :=
    List.mem_map.mpr ⟨(key, item), List.mem_filter.mpr ⟨h, by simp⟩, rfl⟩
  refine ⟨under items key, ?_, hmem⟩
  rw [find?_ofItems, if_neg (List.ne_nil_of_mem hmem)]

/-- The keys are those of the items, in the order of their first occurrences. -/
theorem keys_ofItems (items : List (String × α)) :
    Table.keys (ofItems items) = (items.map Prod.fst).eraseDups := by
  induction items using List.reverseRecOn with
  | nil => rfl
  | append_singleton items e ih =>
    rw [ofItems_concat, Table.keys_extend, ih, List.map_append, List.map_singleton,
      Table.eraseDups_concat]
    simp only [List.mem_eraseDups]

/-- No key stands without items. -/
theorem ne_nil_of_mem_ofItems (items : List (String × α)) : ∀ e ∈ ofItems items, e.2 ≠ [] := by
  induction items using List.reverseRecOn with
  | nil => simp [ofItems]
  | append_singleton items e ih =>
    rw [ofItems_concat]
    exact Table.ne_nil_of_mem_extend ih

/-- What holds of all items that have been filed holds of all items of the collection. -/
theorem forall_mem_ofItems {P : α → Prop} {items : List (String × α)} (h : ∀ i ∈ items, P i.2) :
    ∀ e ∈ ofItems items, ∀ item ∈ e.2, P item := by
  induction items using List.reverseRecOn with
  | nil => simp [ofItems]
  | append_singleton items i ih =>
    obtain ⟨hitems, hi⟩ := List.forall_mem_append.mp h
    rw [ofItems_concat]
    exact Table.forall_mem_extend (ih hitems) (hi i (List.mem_singleton_self i))

/-- Items that are changed before they are grouped are changed in their groups. -/
theorem ofItems_map {β : Type} (items : List (String × α)) (f : α → β) :
    ofItems (items.map fun e => (e.1, f e.2)) =
      (ofItems items).map fun e => (e.1, e.2.map f) := by
  induction items using List.reverseRecOn with
  | nil => rfl
  | append_singleton items e ih =>
    rw [List.map_append, List.map_singleton, ofItems_concat, ih, Table.extend_map, ofItems_concat]

theorem size_extend (c : Collection α) (key : String) (item : α) :
    size (Table.extend c key item) = size c + 1 := by
  induction c with
  | nil => rfl
  | cons e rest ih =>
    obtain ⟨k, items⟩ := e
    unfold Table.extend
    split
    · simp only [size, List.length_append, List.length_singleton]
      omega
    · simp only [size, ih]
      omega

/-- Every item is counted once. -/
theorem size_ofItems (items : List (String × α)) : size (ofItems items) = items.length := by
  induction items using List.reverseRecOn with
  | nil => rfl
  | append_singleton items e ih =>
    rw [ofItems_concat, size_extend, ih, List.length_append, List.length_singleton]

end Collection

end BlockDoc
