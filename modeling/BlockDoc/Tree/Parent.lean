import BlockDoc.Table
import BlockDoc.Validation.Rule

/-!
# Parents of modules

A module of a tree may name its parent: a module block in another module, given by the position of
that module and the address of the block. Modules that are, directly or through others, their own
parents are refused.

## Main definitions

* `ParentRef` — the parent of a module
* `ParentTable` — the parents under the positions of the modules
* `ParentTable.climb` — the way from a module to its parent, the parent of that, and so on
* `ParentTable.cycle?` — the first way that comes back to a module on it
-/

namespace BlockDoc

/-- The module block that has brought in a module: the position of the module it is in, and its
address. -/
structure ParentRef where
  module : Nat
  block : String
  deriving DecidableEq, Repr

namespace ParentRef

/-- The parent that the fields of a mapping give. -/
def checkFields (entries : List (Datum × Datum)) : Checked ParentRef :=
  ParentRef.mk
    <$> Rule.required Rule.natural entries "module"
    <*> Rule.required Rule.string entries "block"

/-- The parent that data give. -/
def check : Datum → Checked ParentRef :=
  Rule.model checkFields

end ParentRef

/-- The parents of modules under the positions of the modules. -/
abbrev ParentTable := Table Nat ParentRef

namespace ParentTable

/-- The way on from a position, given the positions `seen` so far and the parents that have not been
used: the whole way if it comes back to a position on it, and nothing if it ends. -/
def climb (unused : ParentTable) (seen : List Nat) (position : Nat) : Option (List Nat) :=
  if position ∈ seen then some (seen ++ [position])
  else
    match _ : Table.find? unused position with
    | none => none
    | some parent =>
      climb (Table.remove unused position) (seen ++ [position]) parent.module
termination_by unused.length
decreasing_by exact Table.length_remove_lt ‹_›

/-- The way from a module that comes back to a position on it. -/
def cycleFrom? (parents : ParentTable) (start : Nat) : Option (List Nat) :=
  climb parents [] start

/-- The first way, in the order of the entries, that comes back to a position on it. -/
def cycle? (parents : ParentTable) : Option (List Nat) :=
  parents.findSome? fun e => cycleFrom? parents e.1

end ParentTable

end BlockDoc
