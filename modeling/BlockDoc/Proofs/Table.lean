import BlockDoc.Table
import Mathlib.Data.List.Induction

/-!
# Tables, entry by entry

What is found in a table after an entry has been added or removed, and in which order the keys
stand.
-/

namespace BlockDoc

namespace Table

variable {α β : Type} [BEq α] [LawfulBEq α]

/-- One more element of a list without repetitions is dropped if it is among the others. -/
theorem eraseDups_concat (ks : List α) (k : α) :
    (ks ++ [k]).eraseDups = if k ∈ ks then ks.eraseDups else ks.eraseDups ++ [k] := by
  rw [List.eraseDups_append]
  by_cases h : k ∈ ks
  · simp [List.removeAll, h]
  · simp [List.removeAll, h, List.eraseDups_cons]

theorem nodup_eraseDups (ks : List α) : ks.eraseDups.Nodup := by
  induction ks using List.reverseRecOn with
  | nil => exact List.nodup_nil
  | append_singleton ks k ih =>
    rw [eraseDups_concat]
    split
    · exact ih
    · next hk =>
      refine List.nodup_append.mpr ⟨ih, List.pairwise_singleton _ k, ?_⟩
      intro j hj i hi
      obtain rfl := List.mem_singleton.mp hi
      rintro rfl
      exact hk (List.mem_eraseDups.mp hj)

/-- The elements that are left do not depend on the order of the list. -/
theorem eraseDups_perm {ks js : List α} (h : ks.Perm js) : ks.eraseDups.Perm js.eraseDups := by
  refine (List.perm_ext_iff_of_nodup (nodup_eraseDups ks) (nodup_eraseDups js)).mpr fun k => ?_
  rw [List.mem_eraseDups, List.mem_eraseDups, h.mem_iff]

/-- An element that is added under a key is the last one there, and nothing else changes. -/
theorem find?_extend (t : Table α (List β)) (key other : α) (value : β) :
    find? (extend t key value) other =
      if key == other then some ((find? t key).getD [] ++ [value]) else find? t other := by
  induction t with
  | nil => simp [extend, find?]
  | cons e rest ih =>
    obtain ⟨k, vs⟩ := e
    by_cases hk : k = key
    · subst hk
      simp only [extend, find?, beq_self_eq_true, if_true, Option.getD_some]
      split <;> rfl
    · have hk' : (k == key) = false := by simpa using hk
      simp only [extend, find?, hk', Bool.false_eq_true, if_false, ih]
      by_cases ho : k = other
      · subst ho
        have hne : (key == k) = false := by simpa using Ne.symm hk
        simp [hne]
      · have ho' : (k == other) = false := by simpa using ho
        simp [ho']

/-- Adding an element under a key keeps the order of the keys, and adds one at the end if it is
new. -/
theorem keys_extend (t : Table α (List β)) (key : α) (value : β) :
    keys (extend t key value) = if key ∈ keys t then keys t else keys t ++ [key] := by
  induction t with
  | nil => simp [extend, keys]
  | cons e rest ih =>
    obtain ⟨k, vs⟩ := e
    by_cases hk : k = key
    · subst hk
      simp [extend, keys]
    · have hk' : (k == key) = false := by simpa using hk
      have hne : ¬key = k := Ne.symm hk
      have hcons : keys (extend ((k, vs) :: rest) key value) =
          k :: keys (extend rest key value) := by
        simp [extend, hk', keys]
      rw [hcons, ih]
      by_cases hm : key ∈ keys rest <;> simp_all [keys]

omit [LawfulBEq α] in
/-- No list in a table becomes empty by adding an element. -/
theorem ne_nil_of_mem_extend {t : Table α (List β)} {key : α} {value : β}
    (ht : ∀ e ∈ t, e.2 ≠ []) : ∀ e ∈ extend t key value, e.2 ≠ [] := by
  induction t with
  | nil => simp [extend]
  | cons e rest ih =>
    obtain ⟨k, vs⟩ := e
    obtain ⟨hvs, hrest⟩ := List.forall_mem_cons.mp ht
    unfold extend
    split
    · exact List.forall_mem_cons.mpr ⟨by simp, hrest⟩
    · exact List.forall_mem_cons.mpr ⟨hvs, ih hrest⟩

omit [LawfulBEq α] in
/-- What holds of all values of a table and of a new one holds of all values afterwards. -/
theorem forall_mem_put {P : β → Prop} {t : Table α β} {key : α} {value : β}
    (ht : ∀ e ∈ t, P e.2) (hvalue : P value) : ∀ e ∈ put t key value, P e.2 := by
  induction t with
  | nil => simpa [put] using hvalue
  | cons e rest ih =>
    obtain ⟨k, v⟩ := e
    obtain ⟨hv, hrest⟩ := List.forall_mem_cons.mp ht
    unfold put
    split
    · exact List.forall_mem_cons.mpr ⟨hvalue, hrest⟩
    · exact List.forall_mem_cons.mpr ⟨hv, ih hrest⟩

omit [LawfulBEq α] in
theorem forall_mem_putAll {P : β → Prop} {t : Table α β} {entries : List (α × β)}
    (ht : ∀ e ∈ t, P e.2) (hentries : ∀ e ∈ entries, P e.2) :
    ∀ e ∈ putAll t entries, P e.2 := by
  induction entries generalizing t with
  | nil => exact ht
  | cons e rest ih =>
    obtain ⟨he, hrest⟩ := List.forall_mem_cons.mp hentries
    exact ih (forall_mem_put ht he) hrest

omit [LawfulBEq α] in
/-- What holds of all elements of a table of lists and of a new one holds of all afterwards. -/
theorem forall_mem_extend {P : β → Prop} {t : Table α (List β)} {key : α} {value : β}
    (ht : ∀ e ∈ t, ∀ v ∈ e.2, P v) (hvalue : P value) :
    ∀ e ∈ extend t key value, ∀ v ∈ e.2, P v := by
  induction t with
  | nil => simpa [extend] using hvalue
  | cons e rest ih =>
    obtain ⟨k, vs⟩ := e
    obtain ⟨hvs, hrest⟩ := List.forall_mem_cons.mp ht
    unfold extend
    split
    · refine List.forall_mem_cons.mpr ⟨fun v hv => ?_, hrest⟩
      rcases List.mem_append.mp hv with hv | hv
      · exact hvs v hv
      · rw [List.mem_singleton.mp hv]
        exact hvalue
    · exact List.forall_mem_cons.mpr ⟨hvs, ih hrest⟩

omit [LawfulBEq α] in
/-- What is found under a key stands in an entry whose key is taken to be the same. -/
theorem exists_mem_of_find? {t : Table α β} {key : α} {value : β} (h : find? t key = some value) :
    ∃ k, (k == key) = true ∧ (k, value) ∈ t := by
  induction t with
  | nil => cases h
  | cons e rest ih =>
    obtain ⟨k, v⟩ := e
    unfold find? at h
    split at h
    · next hk =>
      obtain rfl := Option.some.inj h
      exact ⟨k, hk, List.mem_cons_self ..⟩
    · obtain ⟨k', hk', hmem⟩ := ih h
      exact ⟨k', hk', List.mem_cons_of_mem _ hmem⟩

theorem mem_of_find? {t : Table α β} {key : α} {value : β} (h : find? t key = some value) :
    (key, value) ∈ t := by
  obtain ⟨k, hk, hmem⟩ := exists_mem_of_find? h
  rwa [eq_of_beq hk] at hmem

/-- An entry of a table without repeated keys is found under its key. -/
theorem find?_of_mem {t : Table α β} (hkeys : (keys t).Nodup) {e : α × β} (he : e ∈ t) :
    find? t e.1 = some e.2 := by
  induction t with
  | nil => cases he
  | cons first rest ih =>
    obtain ⟨hfirst, hrest⟩ := List.nodup_cons.mp hkeys
    rcases List.mem_cons.mp he with rfl | he
    · rw [find?, beq_self_eq_true, if_pos rfl]
    · have hne : (first.1 == e.1) = false := by
        refine beq_eq_false_iff_ne.mpr fun heq => hfirst ?_
        rw [heq]
        exact List.mem_map_of_mem he
      rw [find?, hne, if_neg Bool.false_ne_true]
      exact ih hrest he

theorem mem_keys_iff {t : Table α β} {key : α} : key ∈ keys t ↔ (find? t key).isSome = true := by
  induction t with
  | nil => simp [keys]
  | cons e rest ih =>
    obtain ⟨k, v⟩ := e
    have hkeys : keys ((k, v) :: rest) = k :: keys rest := rfl
    rw [hkeys, List.mem_cons, ih, find?]
    by_cases hk : k = key
    · simp [hk]
    · have hk' : (k == key) = false := by simpa using hk
      simp [hk', Ne.symm hk]

omit [LawfulBEq α] in
theorem putAll_concat (t : Table α β) (entries : List (α × β)) (e : α × β) :
    putAll t (entries ++ [e]) = put (putAll t entries) e.1 e.2 := by
  rw [putAll, List.foldl_append, List.foldl_cons, List.foldl_nil, putAll]

/-- The value of the last of some entries with a key. -/
def last? (entries : List (α × β)) (key : α) : Option β :=
  (entries.reverse.find? fun e => e.1 == key).map Prod.snd

omit [LawfulBEq α] in
theorem last?_concat (entries : List (α × β)) (e : α × β) (key : α) :
    last? (entries ++ [e]) key = if e.1 == key then some e.2 else last? entries key := by
  rw [last?, List.reverse_append, List.reverse_singleton, List.singleton_append, List.find?_cons]
  cases h : e.1 == key <;> simp [last?]

omit [LawfulBEq α] in
theorem last?_append (entries others : List (α × β)) (key : α) :
    last? (entries ++ others) key = (last? others key).or (last? entries key) := by
  rw [last?, List.reverse_append, List.find?_append, Option.map_or]
  rfl

theorem mem_of_last? {entries : List (α × β)} {key : α} {value : β}
    (h : last? entries key = some value) : (key, value) ∈ entries := by
  obtain ⟨e, he, rfl⟩ := Option.map_eq_some_iff.mp h
  have hkey : e.1 = key := by simpa using List.find?_some he
  rw [← hkey]
  exact List.mem_reverse.mp (List.mem_of_find?_eq_some he)

theorem last?_eq_none_iff {entries : List (α × β)} {key : α} :
    last? entries key = none ↔ ∀ e ∈ entries, e.1 ≠ key := by
  simp [last?]

/-- Entries of one value have it under each of their keys. -/
theorem last?_map_const (ks : List α) (value : β) (key : α) [Decidable (key ∈ ks)] :
    last? (ks.map fun k => (k, value)) key = if key ∈ ks then some value else none := by
  split
  · next hmem =>
    cases h : last? (ks.map fun k => (k, value)) key with
    | none => exact absurd rfl (last?_eq_none_iff.mp h _ (List.mem_map_of_mem hmem))
    | some v =>
      obtain ⟨k, -, hk⟩ := List.mem_map.mp (mem_of_last? h)
      rw [(Prod.mk.inj hk).2]
  · next hmem =>
    rw [last?_eq_none_iff]
    intro e he hkey
    obtain ⟨k, hk, rfl⟩ := List.mem_map.mp he
    exact hmem (hkey ▸ hk)

/-- Of the entries that have been set, the last one with a key counts, and an earlier value is found
if there is none. -/
theorem find?_putAll (t : Table α β) (entries : List (α × β)) (key : α) :
    find? (putAll t entries) key = (last? entries key).or (find? t key) := by
  induction entries using List.reverseRecOn with
  | nil => rfl
  | append_singleton entries e ih =>
    rw [putAll_concat, last?_concat]
    by_cases h : e.1 = key
    · subst h
      simp
    · have hkey : (e.1 == key) = false := by simpa using h
      rw [find?_put_of_ne _ _ h, ih, hkey]
      rfl

/-- The keys of a table that stand for the list `ks` without repetitions stand for `ks` and a
further key once that key has been set. -/
theorem keys_put_of_eq_eraseDups {t : Table α β} {ks : List α} (h : keys t = ks.eraseDups)
    (key : α) (value : β) : keys (put t key value) = (ks ++ [key]).eraseDups := by
  rw [keys_put, h, eraseDups_concat]
  simp only [List.mem_eraseDups]

theorem keys_putAll_of_eq_eraseDups {t : Table α β} {ks : List α} (h : keys t = ks.eraseDups)
    (entries : List (α × β)) :
    keys (putAll t entries) = (ks ++ entries.map Prod.fst).eraseDups := by
  induction entries using List.reverseRecOn with
  | nil => simpa using h
  | append_singleton entries e ih =>
    rw [putAll_concat, List.map_append, ← List.append_assoc]
    exact keys_put_of_eq_eraseDups ih e.1 e.2

/-- A new key comes last. -/
theorem put_of_notMem {t : Table α β} {key : α} (h : key ∉ keys t) (value : β) :
    put t key value = t ++ [(key, value)] := by
  induction t with
  | nil => rfl
  | cons e rest ih =>
    obtain ⟨k, v⟩ := e
    rw [keys, List.map_cons, List.mem_cons, not_or] at h
    obtain ⟨hne, hrest⟩ := h
    have hk : (k == key) = false := by simpa using Ne.symm hne
    rw [put, hk, ih hrest]
    rfl

theorem putAll_of_nodup {t : Table α β} {entries : List (α × β)}
    (h : (keys (t ++ entries)).Nodup) : putAll t entries = t ++ entries := by
  induction entries generalizing t with
  | nil => rw [putAll_nil, List.append_nil]
  | cons e rest ih =>
    have hnew : e.1 ∉ keys t := by
      intro hmem
      rw [keys, List.map_append, List.map_cons] at h
      exact (List.nodup_append.mp h).2.2 _ hmem _ (List.mem_cons_self ..) rfl
    rw [putAll_cons, put_of_notMem hnew, ih (by simpa using h), List.append_assoc]
    rfl

/-- Entries under pairwise different keys stay as they are. -/
theorem ofList_of_nodup {entries : List (α × β)} (h : (entries.map Prod.fst).Nodup) :
    ofList entries = entries :=
  putAll_of_nodup h

omit [LawfulBEq α] in
theorem find?_map {γ : Type} (t : Table α β) (f : β → γ) (key : α) :
    find? (t.map fun e => (e.1, f e.2)) key = (find? t key).map f := by
  induction t with
  | nil => rfl
  | cons e rest ih =>
    rw [List.map_cons, find?, find?]
    split
    · rfl
    · exact ih

/-- Entries without a value are left out, and the others are found as before. -/
theorem find?_filterMap {t : Table α (Option β)} (h : (keys t).Nodup) (key : α) :
    find? (t.filterMap fun e => e.2.map fun v => (e.1, v)) key = (find? t key).join := by
  induction t with
  | nil => rfl
  | cons e rest ih =>
    obtain ⟨k, value⟩ := e
    obtain ⟨hk, hrest⟩ := List.nodup_cons.mp h
    cases value with
    | none =>
      rw [List.filterMap_cons_none rfl, ih hrest, find?]
      by_cases hkey : k = key
      · subst hkey
        have hnone : find? rest k = none := by
          by_contra hne
          exact hk (mem_keys_iff.mpr (Option.isSome_iff_ne_none.mpr hne))
        rw [hnone, beq_self_eq_true, if_pos rfl]
        rfl
      · have hne : (k == key) = false := by simpa using hkey
        rw [hne, if_neg Bool.false_ne_true]
    | some v =>
      have hcons : ((k, some v) :: rest).filterMap (fun e => e.2.map fun v => (e.1, v)) =
          (k, v) :: rest.filterMap fun e => e.2.map fun v => (e.1, v) := rfl
      rw [hcons, find?, find?]
      split
      · rfl
      · exact ih hrest

omit [LawfulBEq α] in
/-- Values may be changed before they are set or afterwards. -/
theorem put_map {γ : Type} (t : Table α β) (f : β → γ) (key : α) (value : β) :
    put (t.map fun e => (e.1, f e.2)) key (f value) =
      (put t key value).map fun e => (e.1, f e.2) := by
  induction t with
  | nil => rfl
  | cons e rest ih =>
    rw [List.map_cons, put, put]
    split
    · rfl
    · rw [ih, List.map_cons]

omit [LawfulBEq α] in
theorem putAll_map {γ : Type} (t : Table α β) (f : β → γ) (entries : List (α × β)) :
    putAll (t.map fun e => (e.1, f e.2)) (entries.map fun e => (e.1, f e.2)) =
      (putAll t entries).map fun e => (e.1, f e.2) := by
  induction entries generalizing t with
  | nil => rfl
  | cons e rest ih => rw [List.map_cons, putAll_cons, put_map, ih, putAll_cons]

omit [LawfulBEq α] in
theorem extend_map {γ : Type} (t : Table α (List β)) (f : β → γ) (key : α) (value : β) :
    extend (t.map fun e => (e.1, e.2.map f)) key (f value) =
      (extend t key value).map fun e => (e.1, e.2.map f) := by
  induction t with
  | nil => rfl
  | cons e rest ih =>
    rw [List.map_cons, extend, extend]
    split
    · rw [List.map_cons, List.map_append, List.map_singleton]
    · rw [ih, List.map_cons]

/-- Removing a key changes nothing under other ones. -/
theorem find?_remove_of_ne (t : Table α β) {key other : α} (h : key ≠ other) :
    find? (remove t key) other = find? t other := by
  induction t with
  | nil => rfl
  | cons e rest ih =>
    obtain ⟨k, v⟩ := e
    by_cases hk : k = key
    · subst hk
      simp [remove, find?, h]
    · have hk' : (k == key) = false := by simpa using hk
      simp only [remove, find?, hk', Bool.false_eq_true, if_false, ih]

end Table

end BlockDoc
