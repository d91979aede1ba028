import BlockDoc.Proofs.Lineage.Path
import Mathlib.Data.Finset.Card

/-!
# Ledgers of registrations

A lineage drops a call as a whole if it is refused. A ledger does not: it enters the blocks of a
module one after the other and takes nothing back, and it keeps the blocks that have been entered
apart from the module blocks that have brought them in. All the same, no call leaves a part of its
blocks behind, the two tables of a ledger have the same keys, and what it says about a block is what
the lineage says. Both are told by the calls that succeed: the last of them that covers a block
decides.

## Main definitions

* `Ledger` — the blocks that have been entered, and their module blocks
* `Ledger.perform` — the ledger after a call
* `Ledger.succeeding` — the calls that succeed
* `Ledger.Records` — how calls are recorded

## Main results

* `Ledger.records` — every sequence of calls is recorded so
-/

namespace BlockDoc

-- ════════════════════════════════════════════════════════════════════════
-- Calls
-- ════════════════════════════════════════════════════════════════════════

namespace Registration

/-- The blocks that a call covers. -/
def blocks : Registration → List RootBlock
  | .block b _ => [b]
  | .module m _ => m.blocks

/-- The block that a call gives as the module block. -/
def parent : Registration → RootBlock
  | .block _ parent => parent
  | .module _ parent => parent

/-- What a call comes to on a lineage. -/
def outcome (l : Lineage) : Registration → Except NotModuleBlock Lineage
  | .block b parent => l.register b parent
  | .module m parent => l.registerModule m parent

/-- Whether a call covers a block: that very block, and not one with the same contents. -/
def covers (r : Registration) (b : RootBlock) : Bool :=
  r.blocks.any fun c => c.key = b.key

end Registration

/-- Two tables under the keys of blocks: the blocks that have been entered, and the module blocks
that have brought them in. -/
structure Ledger where
  owned : Table Nat RootBlock
  parents : Table Nat RootBlock

namespace Ledger

/-- A ledger before the first call. -/
def empty : Ledger := ⟨[], []⟩

/-- Enters a block below a module block; anything else is refused in place of one. -/
def register (t : Ledger) (b parent : RootBlock) : Except NotModuleBlock Unit × Ledger :=
  if parent.block.type = Block.moduleType then
    (.ok (), ⟨Table.put t.owned b.key b, Table.put t.parents b.key parent⟩)
  else (.error ⟨parent.reference, parent.block.type⟩, t)

/-- Enters blocks one after the other, up to the first that is refused. Those before it stay
entered. -/
def registerAll (t : Ledger) (parent : RootBlock) :
    List RootBlock → Except NotModuleBlock Unit × Ledger
  | [] => (.ok (), t)
  | b :: rest =>
    match t.register b parent with
    | (.ok (), t) => registerAll t parent rest
    | (.error e, t) => (.error e, t)

/-- What a call comes to, and the ledger after it. -/
def perform (t : Ledger) : Registration → Except NotModuleBlock Unit × Ledger
  | .block b parent => t.register b parent
  | .module m parent => t.registerAll parent m.blocks

/-- The module block that has brought in a block, if that very block has been entered. -/
def moduleBlockOf? (t : Ledger) (b : RootBlock) : Option RootBlock :=
  match Table.find? t.owned b.key with
  | none => none
  | some o => if o.key = b.key then Table.find? t.parents b.key else none

/-- The ledger after calls in order, whether they succeed or not. -/
def run (t : Ledger) (rs : List Registration) : Ledger :=
  rs.foldl (fun t r => (t.perform r).2) t

/-- The calls that succeed, each made on the ledger that those before it leave. -/
def succeeding (t : Ledger) : List Registration → List Registration
  | [] => []
  | r :: rest =>
    match t.perform r with
    | (.ok (), t) => r :: succeeding t rest
    | (.error _, t) => succeeding t rest

-- ════════════════════════════════════════════════════════════════════════
-- One call
-- ════════════════════════════════════════════════════════════════════════

section Call

variable {t : Ledger} {r : Registration}

/-- A call is allowed if it gives a module block, or covers nothing. -/
abbrev IsAllowed (r : Registration) : Prop :=
  r.parent.block.type = Block.moduleType ∨ r.blocks = []

/-- The fault of a call that gives another block than a module block. -/
def refusal (r : Registration) : NotModuleBlock :=
  ⟨r.parent.reference, r.parent.block.type⟩

/-- The entries for the blocks that a call covers, each with its module block. -/
def parentEntries (r : Registration) : List (Nat × RootBlock) :=
  r.blocks.map fun b => (b.key, r.parent)

/-- The ledger with entries for all blocks that a call covers. -/
def enter (t : Ledger) (r : Registration) : Ledger where
  owned := Table.putAll t.owned (r.blocks.map fun b => (b.key, b))
  parents := Table.putAll t.parents (parentEntries r)

theorem perform_eq_registerAll (t : Ledger) (r : Registration) :
    t.perform r = t.registerAll r.parent r.blocks := by
  cases r with
  | module m parent => rfl
  | block b parent =>
    show t.register b parent = t.registerAll parent [b]
    unfold registerAll register
    split <;> rfl

/-- Below a module block all blocks are entered, and below another block not even the first. -/
theorem registerAll_eq (t : Ledger) (parent : RootBlock) (bs : List RootBlock) :
    t.registerAll parent bs =
      if parent.block.type = Block.moduleType ∨ bs = [] then
        (.ok (), ⟨Table.putAll t.owned (bs.map fun b => (b.key, b)),
          Table.putAll t.parents (bs.map fun b => (b.key, parent))⟩)
      else (.error ⟨parent.reference, parent.block.type⟩, t) := by
  by_cases h : parent.block.type = Block.moduleType
  · rw [if_pos (.inl h)]
    induction bs generalizing t with
    | nil => rfl
    | cons b rest ih =>
      rw [registerAll, register, if_pos h]
      exact ih _
  · cases bs with
    | nil => simp [registerAll]
    | cons b rest => simp [registerAll, register, h]

/-- A call that is allowed makes all its entries, and any other is refused before its first one. -/
theorem perform_eq (t : Ledger) (r : Registration) :
    t.perform r = if IsAllowed r then (.ok (), t.enter r) else (.error (refusal r), t) := by
  rw [perform_eq_registerAll, registerAll_eq]
  rfl

theorem outcome_eq (l : Lineage) (r : Registration) :
    r.outcome l =
      if IsAllowed r then .ok (Table.putAll l (parentEntries r)) else .error (refusal r) := by
  cases r with
  | block b parent =>
    show l.register b parent = _
    unfold Lineage.register
    refine if_congr ?_ rfl rfl
    simp [IsAllowed, Registration.parent, Registration.blocks]
  | module m parent => exact Lineage.registerModule_eq l m parent

/-- A call comes to the same on the lineage and on the ledger. -/
theorem perform_eq_outcome (t : Ledger) (r : Registration) :
    (t.perform r).1 = (r.outcome t.parents).map (fun _ => ()) ∧
      (t.perform r).2.parents = r.apply t.parents := by
  have happly : r.apply t.parents = (r.outcome t.parents).toOption.getD t.parents := by
    cases r <;> rfl
  rw [happly, perform_eq, outcome_eq]
  split
  · exact ⟨rfl, rfl⟩
  · exact ⟨rfl, rfl⟩

end Call

-- ════════════════════════════════════════════════════════════════════════
-- The last entry of a key
-- ════════════════════════════════════════════════════════════════════════

section LastEntry

theorem covers_iff {r : Registration} {b : RootBlock} :
    r.covers b = true ↔ b.key ∈ r.blocks.map RootBlock.key := by
  simp [Registration.covers]

/-- The last entry of a call for a block that it covers leads to the module block of the call. -/
theorem last?_parentEntries (r : Registration) (b : RootBlock) :
    Table.last? (parentEntries r) b.key = if r.covers b then some r.parent else none := by
  have hentries : parentEntries r =
      (r.blocks.map RootBlock.key).map fun k => (k, r.parent) := by
    rw [List.map_map]
    rfl
  rw [hentries, Table.last?_map_const]
  exact if_congr covers_iff.symm rfl rfl

/-- The last of some calls that cover a block. -/
def lastCovering? (rs : List Registration) (b : RootBlock) : Option Registration :=
  rs.reverse.find? fun r => r.covers b

/-- Of the entries of calls one after the other, those of the last call that covers a block
count. -/
theorem last?_flatMap_parentEntries (rs : List Registration) (b : RootBlock) :
    Table.last? (rs.flatMap parentEntries) b.key =
      (lastCovering? rs b).map Registration.parent := by
  induction rs using List.reverseRecOn with
  | nil => rfl
  | append_singleton rs r ih =>
    rw [List.flatMap_append, Table.last?_append, ih, List.flatMap_singleton, last?_parentEntries,
      lastCovering?, lastCovering?, List.reverse_append, List.reverse_singleton,
      List.singleton_append, List.find?_cons]
    cases r.covers b <;> rfl

/-- The entry for a block among those that have been entered is one for that very block. -/
theorem exists_find?_owned {t : Ledger} {r : Registration} {b : RootBlock} (hb : b ∈ r.blocks) :
    ∃ o, Table.find? (t.enter r).owned b.key = some o ∧ o.key = b.key := by
  cases hlast : Table.last? (r.blocks.map fun c => (c.key, c)) b.key with
  | none => exact absurd rfl (Table.last?_eq_none_iff.mp hlast _ (List.mem_map_of_mem hb))
  | some o =>
    obtain ⟨c, -, hc⟩ := List.mem_map.mp (Table.mem_of_last? hlast)
    obtain ⟨hkey, rfl⟩ := Prod.mk.inj hc
    refine ⟨c, ?_, hkey⟩
    rw [enter, Table.find?_putAll, hlast]
    rfl

/-- A call that has made its entries has brought in all blocks that it covers. -/
theorem moduleBlockOf?_enter {t : Ledger} {r : Registration} {b : RootBlock} (hb : b ∈ r.blocks) :
    (t.enter r).moduleBlockOf? b = some r.parent := by
  obtain ⟨o, ho, hkey⟩ := exists_find?_owned (t := t) hb
  have hcovers : r.covers b = true := List.any_eq_true.mpr ⟨b, hb, decide_eq_true rfl⟩
  unfold moduleBlockOf?
  rw [ho]
  dsimp only
  rw [if_pos hkey, enter, Table.find?_putAll, last?_parentEntries, if_pos hcovers]
  rfl

/-- A call that does not cover a block says nothing about it. -/
theorem moduleBlockOf?_enter_of_not_covers {t : Ledger} {r : Registration} {b : RootBlock}
    (hb : r.covers b = false) : (t.enter r).moduleBlockOf? b = t.moduleBlockOf? b := by
  have hparents : Table.last? (parentEntries r) b.key = none := by
    rw [last?_parentEntries, hb]
    rfl
  have howned : Table.last? (r.blocks.map fun c => (c.key, c)) b.key = none := by
    rw [Table.last?_eq_none_iff] at hparents ⊢
    intro e he
    obtain ⟨c, hc, rfl⟩ := List.mem_map.mp he
    exact hparents (c.key, r.parent) (List.mem_map_of_mem hc)
  unfold moduleBlockOf?
  rw [enter, Table.find?_putAll, Table.find?_putAll, howned, hparents, Option.none_or,
    Option.none_or]

end LastEntry

-- ════════════════════════════════════════════════════════════════════════
-- Runs
-- ════════════════════════════════════════════════════════════════════════

section Runs

variable {t : Ledger}

/-- Only the calls that succeed make entries. -/
theorem run_eq (t : Ledger) (rs : List Registration) :
    t.run rs = (t.succeeding rs).foldl enter t := by
  induction rs generalizing t with
  | nil => rfl
  | cons r rest ih =>
    have hstep : t.run (r :: rest) = (t.perform r).2.run rest := rfl
    rw [hstep, succeeding, perform_eq]
    by_cases h : IsAllowed r
    · rw [if_pos h]
      exact ih (t.enter r)
    · rw [if_neg h]
      exact ih t

theorem foldl_enter (t : Ledger) (rs : List Registration) :
    rs.foldl enter t =
      ⟨Table.putAll t.owned (rs.flatMap fun r => r.blocks.map fun b => (b.key, b)),
        Table.putAll t.parents (rs.flatMap parentEntries)⟩ := by
  induction rs generalizing t with
  | nil => rfl
  | cons r rest ih =>
    rw [List.foldl_cons, ih, List.flatMap_cons, List.flatMap_cons, Table.putAll, Table.putAll,
      Table.putAll, Table.putAll, List.foldl_append, List.foldl_append]
    rfl

/-- The lineage that a ledger keeps is the one after the same calls. -/
theorem run_parents (t : Ledger) (rs : List Registration) :
    (t.run rs).parents = rs.foldl Registration.apply t.parents := by
  induction rs generalizing t with
  | nil => rfl
  | cons r rest ih =>
    rw [List.foldl_cons, ← (perform_eq_outcome t r).2]
    exact ih (t.perform r).2

/-- The blocks that some calls cover, by their keys, each once. -/
def coveredKeys (rs : List Registration) : List Nat :=
  (rs.flatMap fun r => r.blocks.map RootBlock.key).eraseDups

/-- Both tables have entries for the blocks that the calls that succeed cover, in the order in which
they have been covered first. -/
theorem keys_run_empty (rs : List Registration) :
    Table.keys (empty.run rs).owned = coveredKeys (empty.succeeding rs) ∧
      Table.keys (empty.run rs).parents = coveredKeys (empty.succeeding rs) := by
  have hnil : Table.keys ([] : Table Nat RootBlock) = ([] : List Nat).eraseDups := rfl
  rw [run_eq, foldl_enter]
  constructor
  · refine (Table.keys_putAll_of_eq_eraseDups hnil _).trans ?_
    simp [coveredKeys, List.map_flatMap, Function.comp_def]
  · refine (Table.keys_putAll_of_eq_eraseDups hnil _).trans ?_
    simp [coveredKeys, List.map_flatMap, parentEntries, Function.comp_def]

theorem owned_run_empty {rs : List Registration} {b o : RootBlock}
    (h : Table.find? (empty.run rs).owned b.key = some o) : o.key = b.key := by
  rw [run_eq, foldl_enter, Table.find?_putAll, empty, Table.find?, Option.or_none] at h
  obtain ⟨r, -, hr⟩ := List.mem_flatMap.mp (Table.mem_of_last? h)
  obtain ⟨c, -, hc⟩ := List.mem_map.mp hr
  rw [← (Prod.mk.inj hc).1, (Prod.mk.inj hc).2]

/-- Of the two tables, only the module blocks count, because the other one has the same keys. -/
theorem moduleBlockOf?_run_empty (rs : List Registration) (b : RootBlock) :
    (empty.run rs).moduleBlockOf? b = Table.find? (empty.run rs).parents b.key := by
  obtain ⟨howned, hparents⟩ := keys_run_empty rs
  cases h : Table.find? (empty.run rs).owned b.key with
  | some o =>
    unfold moduleBlockOf?
    rw [h]
    exact if_pos (owned_run_empty h)
  | none =>
    have hkey : b.key ∉ Table.keys (empty.run rs).parents := by
      rw [hparents, ← howned, Table.mem_keys_iff, h]
      exact Bool.false_ne_true
    rw [Table.mem_keys_iff, Bool.not_eq_true, Option.isSome_eq_false_iff,
      Option.isNone_iff_eq_none] at hkey
    unfold moduleBlockOf?
    rw [h, hkey]

theorem find?_parents_run_empty (rs : List Registration) (b : RootBlock) :
    Table.find? (empty.run rs).parents b.key =
      (lastCovering? (empty.succeeding rs) b).map Registration.parent := by
  rw [run_eq, foldl_enter, Table.find?_putAll, last?_flatMap_parentEntries, empty, Table.find?,
    Option.or_none]

end Runs

-- ════════════════════════════════════════════════════════════════════════
-- Records
-- ════════════════════════════════════════════════════════════════════════

/-- How a call leaves a ledger. -/
structure IsAtomic (r : Registration) : Prop where
  /-- The ledger and the lineage in it agree on whether the call succeeds. -/
  outcome : ∀ t : Ledger, (t.perform r).1 = (r.outcome t.parents).map fun _ => ()
  /-- Either all blocks are entered below the module block of the call, or nothing has changed. -/
  done_or_unchanged : ∀ t : Ledger,
    ((t.perform r).1 = .ok () ∧ ∀ b ∈ r.blocks, (t.perform r).2.moduleBlockOf? b = some r.parent) ∨
      ∃ e, t.perform r = (.error e, t)
  /-- What a call leaves alone is found as before. -/
  frame : ∀ (t : Ledger) (b : RootBlock), r.covers b = false →
    (t.perform r).2.moduleBlockOf? b = t.moduleBlockOf? b
  /-- Without a module block nothing changes, and this is a fault unless there is nothing to
  enter. -/
  refused : r.parent.block.type ≠ Block.moduleType →
    ∀ t : Ledger, (t.perform r).2 = t ∧ ((t.perform r).1 = .ok () ↔ r.blocks = [])

/-- What is on record after calls in order, of which any may fail. -/
structure Records (rs : List Registration) : Prop where
  atomic : ∀ r, IsAtomic r
  /-- A module without blocks changes nothing, whatever it is put below. -/
  empty_module : ∀ (t : Ledger) (parent : RootBlock),
    t.perform (.module ⟨[]⟩ parent) = (.ok (), t)
  lineage : (empty.run rs).parents = Lineage.ofRegistrations rs
  in_step : Table.keys (empty.run rs).owned = Table.keys (empty.run rs).parents
  moduleBlockOf?_eq : ∀ b, (empty.run rs).moduleBlockOf? b = (Lineage.ofRegistrations rs).parent? b
  /-- The last call that has succeeded and covers the very block decides. -/
  parent?_eq : ∀ b, (Lineage.ofRegistrations rs).parent? b =
    (lastCovering? (empty.succeeding rs) b).map Registration.parent
  hasModuleBlocks : (Lineage.ofRegistrations rs).HasModuleBlocks
  /-- There are as many entries as different blocks that calls that have succeeded cover. -/
  length_eq : (Lineage.ofRegistrations rs).length =
    ((empty.succeeding rs).flatMap fun r => r.blocks.map RootBlock.key).toFinset.card

theorem isAtomic (r : Registration) : IsAtomic r where
  outcome t := (perform_eq_outcome t r).1
  done_or_unchanged t := by
    rw [perform_eq]
    by_cases h : IsAllowed r
    · rw [if_pos h]
      exact .inl ⟨rfl, fun b hb => moduleBlockOf?_enter hb⟩
    · rw [if_neg h]
      exact .inr ⟨_, rfl⟩
  frame t b hb := by
    rw [perform_eq]
    by_cases h : IsAllowed r
    · rw [if_pos h]
      exact moduleBlockOf?_enter_of_not_covers hb
    · rw [if_neg h]
  refused htype t := by
    rw [perform_eq]
    by_cases h : r.blocks = []
    · have henter : t.enter r = t := by
        rw [enter, parentEntries, h]
        rfl
      rw [if_pos (.inr h), henter]
      exact ⟨rfl, fun _ => h, fun _ => rfl⟩
    · rw [if_neg (not_or.mpr ⟨htype, h⟩)]
      exact ⟨rfl, nofun, fun hnil => absurd hnil h⟩

theorem length_eq_card_of_keys {t : Table Nat RootBlock} {rs : List Registration}
    (h : Table.keys t = coveredKeys rs) :
    t.length = (rs.flatMap fun r => r.blocks.map RootBlock.key).toFinset.card := by
  have hlength : t.length = (coveredKeys rs).length := by
    rw [← h, Table.keys, List.length_map]
  have hset : (coveredKeys rs).toFinset =
      (rs.flatMap fun r => r.blocks.map RootBlock.key).toFinset := by
    ext key
    simp [coveredKeys]
  rw [hlength, ← hset]
  exact (List.toFinset_card_of_nodup (Table.nodup_eraseDups _)).symm

/-- Every sequence of calls is recorded in step, call by call, and the last call that succeeds
counts. -/
theorem records (rs : List Registration) : Records rs := by
  have hlineage : (empty.run rs).parents = Lineage.ofRegistrations rs := run_parents empty rs
  have hkeys := keys_run_empty rs
  exact {
    atomic := isAtomic
    empty_module := fun _ _ => rfl
    lineage := hlineage
    in_step := hkeys.1.trans hkeys.2.symm
    moduleBlockOf?_eq := fun b => by
      rw [moduleBlockOf?_run_empty, hlineage]
      rfl
    parent?_eq := fun b => by
      rw [Lineage.parent?, ← hlineage, find?_parents_run_empty]
    hasModuleBlocks := Lineage.hasModuleBlocks_ofRegistrations rs
    length_eq := length_eq_card_of_keys (hlineage ▸ hkeys.2) }

namespace Twins

/-- An output of a called module. -/
def output : Block where
  type := "output"
  labels := ["url"]
  range := ⟨"main.tf", 12, 18, by decide⟩

/-- A call of a module. -/
def call : RootBlock where
  key := 0
  block := { type := "module", labels := ["notify"], range := ⟨"main.tf", 21, 23, by decide⟩ }

/-- The module that is called has one output. The second call is refused, because it gives that
output as the parent. -/
def calls : List Registration :=
  [.module ⟨[⟨1, output⟩]⟩ call, .block ⟨2, output⟩ ⟨1, output⟩]

/-- Of two outputs with the same contents only the first has been brought in. -/
example : ((empty.run calls).moduleBlockOf? ⟨1, output⟩).isSome = true ∧
    ((empty.run calls).moduleBlockOf? ⟨2, output⟩).isNone = true := by
  decide +kernel

end Twins

end Ledger

end BlockDoc
