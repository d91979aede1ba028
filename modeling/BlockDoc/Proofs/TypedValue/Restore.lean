import BlockDoc.Proofs.Decimal.Writing
import BlockDoc.Proofs.Table
import BlockDoc.Proofs.TypedValue.Mirror
import BlockDoc.TypedValue.Native

/-!
# Native values are restored

A native value that has been made a typed value is given as plain data again. If it is made of
nulls, truth values, integers, integral decimal numbers and strings, in lists, tuples and mappings
under strings, nothing is lost: tuples are read as lists, and decimal numbers as the integers that
they equal.

## Main definitions

* `Native.IsPlain` — the native values that are restored
* `Native.ReadsAs` — the data as which a native value is read

## Main results

* `TypedValue.exists_plain?_ofNative` — plain native values are restored
-/

namespace BlockDoc

namespace Native

/-- Native values without floating-point numbers and without decimal numbers that are not integral,
all keys of which are strings. No integer has more digits than a decimal number may have. -/
inductive IsPlain : Native → Prop
  | null : IsPlain .null
  | bool (b : Bool) : IsPlain (.bool b)
  | int {n : Int} (h : (Decimal.ofInt n).isInRange = true) : IsPlain (.int n)
  | decimal {d : Decimal} {n : Int} (hd : d.value? = some (n : ℚ)) (h : d.isInRange = true) :
    IsPlain (.decimal d)
  | str (s : String) : IsPlain (.str s)
  | list {items : List Native} (h : ∀ v ∈ items, IsPlain v) : IsPlain (.list items)
  | tuple {items : List Native} (h : ∀ v ∈ items, IsPlain v) : IsPlain (.tuple items)
  | map {entries : List (Native × Native)} {keys : List String} (hkeys : keys.Nodup)
    (hentries : entries.map Prod.fst = keys.map .str) (h : ∀ e ∈ entries, IsPlain e.2) :
    IsPlain (.map entries)

/-- The data as which a native value is read: lists for tuples, and integers for integral decimal
numbers. -/
inductive ReadsAs : Native → Datum → Prop
  | null : ReadsAs .null .null
  | bool (b : Bool) : ReadsAs (.bool b) (.bool b)
  | int (n : Int) : ReadsAs (.int n) (.int n)
  | decimal {d : Decimal} {n : Int} (hd : d.value? = some (n : ℚ)) : ReadsAs (.decimal d) (.int n)
  | str (s : String) : ReadsAs (.str s) (.str s)
  | list {items : List Native} {ds : List Datum} (h : List.Forall₂ ReadsAs items ds) :
    ReadsAs (.list items) (.list ds)
  | tuple {items : List Native} {ds : List Datum} (h : List.Forall₂ ReadsAs items ds) :
    ReadsAs (.tuple items) (.list ds)
  | map {entries : List (Native × Native)} {ds : List (Datum × Datum)} {keys : List String}
    (hentries : entries.map Prod.fst = keys.map .str) (hds : ds.map Prod.fst = keys.map .str)
    (h : List.Forall₂ ReadsAs (entries.map Prod.snd) (ds.map Prod.snd)) :
    ReadsAs (.map entries) (.map ds)

/-- If each item is read as one datum only, a list of items is read as one list only. -/
theorem eq_of_forall₂_readsAs {items : List Native} {ds ds' : List Datum}
    (hitems : ∀ v ∈ items, ∀ d d', v.ReadsAs d → v.ReadsAs d' → d = d')
    (h : List.Forall₂ ReadsAs items ds) (h' : List.Forall₂ ReadsAs items ds') : ds = ds' := by
  induction h generalizing ds' with
  | nil =>
    cases h'
    rfl
  | cons hd _ ih =>
    cases h' with
    | cons hd' hds' =>
      rw [hitems _ (List.mem_cons_self ..) _ _ hd hd',
        ih (fun v hv => hitems v (List.mem_cons_of_mem _ hv)) hds']

/-- A plain native value is read as one datum only. -/
theorem IsPlain.eq_of_readsAs {v : Native} (hv : v.IsPlain) {d d' : Datum} (h : v.ReadsAs d)
    (h' : v.ReadsAs d') : d = d' := by
  induction hv generalizing d d' with
  | null | bool | int | str =>
    cases h
    cases h'
    rfl
  | decimal _ _ =>
    cases h with
    | decimal hn =>
      cases h' with
      | decimal hn' =>
        have hcast := Option.some.inj (hn.symm.trans hn')
        rw [Int.cast_inj] at hcast
        rw [hcast]
  | list _ ih =>
    cases h with
    | list hds =>
      cases h' with
      | list hds' => rw [eq_of_forall₂_readsAs (fun v hv d d' => ih v hv) hds hds']
  | tuple _ ih =>
    cases h with
    | tuple hds =>
      cases h' with
      | tuple hds' => rw [eq_of_forall₂_readsAs (fun v hv d d' => ih v hv) hds hds']
  | map _ _ _ ih =>
    cases h with
    | map hentries hkeys hds =>
      cases h' with
      | map hentries' hkeys' hds' =>
        have hinjective : Function.Injective Native.str := fun _ _ => Native.str.inj
        obtain rfl := hinjective.list_map (hentries.symm.trans hentries')
        have hvalues := eq_of_forall₂_readsAs (fun v hv d d' => by
          obtain ⟨e, he, rfl⟩ := List.mem_map.mp hv
          exact ih e he) hds hds'
        rw [List.zip_of_prod hkeys rfl, List.zip_of_prod hkeys' rfl, hvalues]

/-- A value is restored: it has a typed value, and the plain data of that are what it is read as. -/
def IsRestored (v : Native) : Prop :=
  ∃ t d, TypedValue.ofNative v = .ok t ∧ t.plain? = some d ∧ v.ReadsAs d

end Native

namespace TypedValue

open Native

/-- If all items are restored, so is the sequence. -/
theorem exists_ofItems {items : List Native} (h : ∀ v ∈ items, v.IsRestored) :
    ∃ ts ds, ofItems items = .ok ts ∧ plainItems? ts = some ds ∧
      List.Forall₂ ReadsAs items ds := by
  induction items with
  | nil => exact ⟨[], [], rfl, rfl, .nil⟩
  | cons v rest ih =>
    obtain ⟨t, d, ht, hd, hread⟩ := h v (List.mem_cons_self ..)
    obtain ⟨ts, ds, hts, hds, hreads⟩ := ih fun u hu => h u (List.mem_cons_of_mem _ hu)
    refine ⟨t :: ts, d :: ds, ?_, ?_, .cons hread hreads⟩
    · rw [ofItems, ht, hts]
      rfl
    · exact plainItems?_cons_eq_some.mpr ⟨d, ds, hd, hds, rfl⟩

/-- Lists and tuples of restored items are both read as lists. -/
theorem exists_sequence {v : Native} {items : List Native}
    (hv : ofNative v = (ofItems items).map fun ts => .sequence .tuple (some ts))
    (h : ∀ u ∈ items, u.IsRestored) :
    ∃ t ds, ofNative v = .ok t ∧ t.plain? = some (.list ds) ∧ List.Forall₂ ReadsAs items ds := by
  obtain ⟨ts, ds, hts, hds, hreads⟩ := exists_ofItems h
  refine ⟨.sequence .tuple (some ts), ds, ?_, ?_, hreads⟩
  · rw [hv, hts]
    rfl
  · rw [plain?_sequence]
    exact Option.map_eq_some_iff.mpr ⟨ds, hds, rfl⟩

/-- If all members are restored, so are they together, under the texts of their keys. -/
theorem exists_ofEntries {entries : List (Native × Native)} {keys : List String}
    (hentries : entries.map Prod.fst = keys.map .str) (h : ∀ e ∈ entries, e.2.IsRestored) :
    ∃ ms ds, ofEntries entries = .ok ms ∧ ms.map Prod.fst = keys ∧
      plainItems? (ms.map Prod.snd) = some ds ∧
        List.Forall₂ ReadsAs (entries.map Prod.snd) ds := by
  induction entries generalizing keys with
  | nil =>
    rcases keys with _ | ⟨k, keys⟩
    · exact ⟨[], [], rfl, rfl, rfl, .nil⟩
    · cases hentries
  | cons e rest ih =>
    rcases keys with _ | ⟨k, keys⟩
    · cases hentries
    · obtain ⟨name, v⟩ := e
      obtain ⟨rfl, hrest⟩ := List.cons.inj hentries
      obtain ⟨t, d, ht, hd, hread⟩ := h _ (List.mem_cons_self ..)
      obtain ⟨ms, ds, hms, hkeys, hds, hreads⟩ :=
        ih hrest fun e he => h e (List.mem_cons_of_mem _ he)
      refine ⟨(k, t) :: ms, d :: ds, ?_, ?_, ?_, .cons hread hreads⟩
      · dsimp only at ht
        rw [ofEntries, ht, hms]
        rfl
      · rw [List.map_cons, hkeys]
      · exact plainItems?_cons_eq_some.mpr ⟨d, ds, hd, hds, rfl⟩

theorem isRestored_of_number {s : String} {d : Decimal} {n : Int} {v : Native}
    (hv : ofNative v = .ok (.number (some s))) (hs : Decimal.ofText? s = some d)
    (hd : d.value? = some (n : ℚ)) (hread : v.ReadsAs (.int n)) : v.IsRestored :=
  ⟨_, _, hv, (plainNumber?_some hs).trans (Decimal.toDatum?_of_value? hd), hread⟩

theorem isRestored_of_decimal {d : Decimal} {n : Int} (hd : d.value? = some (n : ℚ))
    (h : d.isInRange = true) : (Native.decimal d).IsRestored := by
  cases d with
  | finite negative c e => exact isRestored_of_number rfl (Decimal.ofText?_text h) hd (.decimal hd)
  | infinite negative => cases hd
  | nan negative signaling payload => cases hd

theorem isRestored_of_map {entries : List (Native × Native)} {keys : List String}
    (hkeys : keys.Nodup) (hentries : entries.map Prod.fst = keys.map .str)
    (h : ∀ e ∈ entries, e.2.IsRestored) : (Native.map entries).IsRestored := by
  obtain ⟨ms, ds, hms, hnames, hds, hreads⟩ := exists_ofEntries hentries h
  have htable : Table.ofList ms = ms := Table.ofList_of_nodup (hnames ▸ hkeys)
  let members : List (Datum × TypedValue) := ms.map fun m => (.str m.1, m.2)
  have hfst : members.map Prod.fst = keys.map .str := by
    rw [← hnames, List.map_map, List.map_map]
    rfl
  have hsnd : members.map Prod.snd = ms.map Prod.snd := by
    rw [List.map_map]
    rfl
  have hlength : keys.length = ds.length := by
    rw [← hreads.length_eq, List.length_map, ← List.length_map (f := Prod.fst), hentries,
      List.length_map]
  refine ⟨.record .object (some members), .map ((keys.map .str).zip ds), ?_, ?_,
    .map hentries ?_ ?_⟩
  · have hunfold : ofNative (.map entries) = (ofEntries entries).map fun ms =>
        .record .object (some ((Table.ofList ms).map fun m => (.str m.1, m.2))) := by
      rw [ofNative]
    rw [hunfold, hms, Except.map, htable]
  · rw [plain?_record, Option.getD_some, hsnd, hds, hfst]
    rfl
  · exact List.map_fst_zip (by rw [List.length_map, hlength])
  · rwa [List.map_snd_zip (by rw [List.length_map, hlength])]

theorem isRestored_of_isPlain {v : Native} (h : v.IsPlain) : v.IsRestored := by
  induction h with
  | null => exact ⟨.null .null, .null, rfl, rfl, .null⟩
  | bool b => exact ⟨.bool (.bool b), .bool b, rfl, rfl, .bool b⟩
  | int h =>
    exact isRestored_of_number rfl (Decimal.ofText?_intText h) (Decimal.value?_ofInt _) (.int _)
  | decimal hd h => exact isRestored_of_decimal hd h
  | str s => exact ⟨.string (.str s), .str s, rfl, rfl, .str s⟩
  | @list items _ ih =>
    obtain ⟨t, ds, ht, hd, hreads⟩ := exists_sequence (v := .list items) (by rw [ofNative]) ih
    exact ⟨t, .list ds, ht, hd, .list hreads⟩
  | @tuple items _ ih =>
    obtain ⟨t, ds, ht, hd, hreads⟩ := exists_sequence (v := .tuple items) (by rw [ofNative]) ih
    exact ⟨t, .list ds, ht, hd, .tuple hreads⟩
  | map hkeys hentries _ ih => exact isRestored_of_map hkeys hentries ih

/-- The typed value of a plain native value is given as the one datum as which the native value is
read. -/
theorem exists_plain?_ofNative {v : Native} (h : v.IsPlain) :
    ∃ t d, ofNative v = .ok t ∧ t.plain? = some d ∧ ∀ d', v.ReadsAs d' ↔ d' = d := by
  obtain ⟨t, d, ht, hd, hread⟩ := isRestored_of_isPlain h
  refine ⟨t, d, ht, hd, fun d' => ⟨fun hread' => h.eq_of_readsAs hread' hread, ?_⟩⟩
  rintro rfl
  exact hread

namespace Nested

/-- A tuple and a mapping under two keys. -/
def native : Native :=
  .map [(.str "ports", .tuple [.bool true, .int (-80), .decimal (.finite false 150 1)]),
    (.str "tags", .map [(.str "env", .list [.str "prod", .null])])]

theorem isPlain_native : native.IsPlain := by
  have hports :
      (Native.tuple [.bool true, .int (-80), .decimal (.finite false 150 1)]).IsPlain := by
    have hdecimal : (Native.decimal (.finite false 150 1)).IsPlain :=
      .decimal (by norm_num [signed] : _ = some ((1500 : Int) : ℚ)) (by decide)
    refine .tuple fun v hv => ?_
    simp only [List.mem_cons, List.not_mem_nil, or_false] at hv
    rcases hv with rfl | rfl | rfl
    · exact .bool true
    · exact .int (by decide)
    · exact hdecimal
  have htags : (Native.map [(.str "env", .list [.str "prod", .null])]).IsPlain := by
    have hlist : (Native.list [.str "prod", .null]).IsPlain := by
      refine .list fun v hv => ?_
      simp only [List.mem_cons, List.not_mem_nil, or_false] at hv
      rcases hv with rfl | rfl
      · exact .str "prod"
      · exact .null
    refine .map (List.nodup_singleton "env") rfl fun e he => ?_
    obtain rfl := List.mem_singleton.mp he
    exact hlist
  have hkeys : ["ports", "tags"].Nodup := by decide
  refine .map hkeys rfl fun e he => ?_
  simp only [List.mem_cons, List.not_mem_nil, or_false] at he
  rcases he with rfl | rfl
  · exact hports
  · exact htags

theorem exists_plain?_ofNative_native :
    ∃ t d, ofNative native = .ok t ∧ t.plain? = some d ∧ ∀ d', native.ReadsAs d' ↔ d' = d :=
  exists_plain?_ofNative isPlain_native

end Nested

end TypedValue

end BlockDoc
