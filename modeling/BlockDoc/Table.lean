/-!
# Tables in order of insertion

A table is the list of its entries. Setting a key that is present replaces its value in place, so a
key keeps its first position and has its last value.

## Main definitions

* `Table` — entries of keys and values
* `Table.find?` — the value under a key
* `Table.put` — a table with one entry set
* `Table.ofList` — the table that results from setting entries one after the other
* `Table.extend` — a table of lists with one element added under a key
-/

namespace BlockDoc

/-- The entries of a table, in the order in which their keys were first set. -/
abbrev Table (α β : Type) := List (α × β)

namespace Table

variable {α β : Type} [BEq α]

/-- The value under a key. -/
def find? (t : Table α β) (key : α) : Option β :=
  match t with
  | [] => none
  | (k, v) :: rest => if k == key then some v else find? rest key

/-- Whether a key is present. -/
def has (t : Table α β) (key : α) : Bool :=
  (find? t key).isSome

/-- The table with `value` under `key`: in place of the present value, or as the last entry. -/
def put (t : Table α β) (key : α) (value : β) : Table α β :=
  match t with
  | [] => [(key, value)]
  | (k, v) :: rest => if k == key then (k, value) :: rest else (k, v) :: put rest key value

/-- The table `t` with all entries of a list set in order. -/
def putAll (t : Table α β) (entries : List (α × β)) : Table α β :=
  entries.foldl (fun t e => put t e.1 e.2) t

/-- The table that results from setting entries one after the other. -/
def ofList (entries : List (α × β)) : Table α β :=
  putAll [] entries

/-- The table of lists with `value` as the last element under `key`. -/
def extend (t : Table α (List β)) (key : α) (value : β) : Table α (List β) :=
  match t with
  | [] => [(key, [value])]
  | (k, vs) :: rest =>
    if k == key then (k, vs ++ [value]) :: rest else (k, vs) :: extend rest key value

/-- The table without the entry under a key. -/
def remove (t : Table α β) (key : α) : Table α β :=
  match t with
  | [] => []
  | (k, v) :: rest => if k == key then rest else (k, v) :: remove rest key

/-- The keys in order. -/
def keys (t : Table α β) : List α :=
  t.map Prod.fst

@[simp]
theorem find?_nil (key : α) : find? ([] : Table α β) key = none := rfl

@[simp]
theorem putAll_nil (t : Table α β) : putAll t [] = t := rfl

@[simp]
theorem putAll_cons (t : Table α β) (key : α) (value : β) (rest : List (α × β)) :
    putAll t ((key, value) :: rest) = putAll (put t key value) rest := rfl

/-- A key that has been set has its new value. -/
@[simp]
theorem find?_put_self [LawfulBEq α] (t : Table α β) (key : α) (value : β) :
    find? (put t key value) key = some value := by
  induction t with
  | nil => simp [put, find?]
  | cons e rest ih =>
    obtain ⟨k, v⟩ := e
    by_cases h : k = key <;> simp [put, find?, h, ih]

/-- Setting a key changes no other one. -/
theorem find?_put_of_ne [LawfulBEq α] (t : Table α β) {key other : α} (value : β)
    (h : key ≠ other) : find? (put t key value) other = find? t other := by
  induction t with
  | nil => simp [put, find?, h]
  | cons e rest ih =>
    obtain ⟨k, v⟩ := e
    by_cases hk : k = key
    · subst hk
      simp [put, find?, h]
    · have hk' : (k == key) = false := by simpa using hk
      simp [put, find?, hk', ih]

/-- Setting a key keeps the order of the keys, and adds one at the end if it is new. -/
theorem keys_put [LawfulBEq α] (t : Table α β) (key : α) (value : β) :
    keys (put t key value) = if key ∈ keys t then keys t else keys t ++ [key] := by
  induction t with
  | nil => simp [put, keys]
  | cons e rest ih =>
    obtain ⟨k, v⟩ := e
    by_cases h : k = key
    · simp [put, keys, h]
    · have hk : (k == key) = false := by simpa using h
      have hk' : ¬key = k := fun e => h e.symm
      have hcons : keys (put ((k, v) :: rest) key value) = k :: keys (put rest key value) := by
        simp [put, hk, keys]
      rw [hcons, ih]
      by_cases hm : key ∈ keys rest <;> simp_all [keys]

/-- Removing a key that is present leaves one entry less. -/
theorem length_remove_lt {t : Table α β} {key : α} {value : β} (h : find? t key = some value) :
    (remove t key).length < t.length := by
  induction t with
  | nil => simp at h
  | cons e rest ih =>
    obtain ⟨k, v⟩ := e
    by_cases hk : (k == key) = true
    · simp [remove, hk]
    · simp only [find?, hk, Bool.false_eq_true, if_false] at h
      simp only [remove, hk, Bool.false_eq_true, if_false, List.length_cons]
      have := ih h
      omega

end Table

end BlockDoc
