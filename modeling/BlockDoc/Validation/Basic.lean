import BlockDoc.Text.Digit

/-!
# Checking data against a model

Checking a value of a tree format either gives a value of the model, or lists every place at which
the data violate the model. Two faults are not counted among the violations: data that cannot be
gone through at all where items or members are called for. Such a fault ends the check at once.

## Main definitions

* `Violation` — the ways in which data can differ from a model
* `Violation.message?` — what the model itself says about a violation
* `Finding` — a violation and its place
* `Breakdown` — the faults that end a check
* `Checked` — the outcome of a check
* `Checked.both` — two checks side by side, whose findings are joined
* `Checked.andThen` — a check that follows on another one
-/

namespace BlockDoc

/-- One step from a value to one of its parts. -/
inductive Step
  | field (name : String)
  | position (index : Nat)
  deriving DecidableEq, Repr

/-- The ways in which data can differ from a model. -/
inductive Violation
  /-- Something else than a mapping where a model is called for. -/
  | notMapping
  /-- No value for a field that has no default. -/
  | missing
  | notString
  | notList
  /-- A value of a kind that gives no integer. -/
  | notInteger
  /-- A text that is not the text of an integer. -/
  | unreadableInteger
  /-- A number or text too large to be read as an integer. -/
  | oversizedInteger
  /-- A number with a fraction where an integer is called for. -/
  | fractional
  /-- An infinity or `nan` where an integer is called for. -/
  | notFinite
  /-- A negative integer where the least value is zero. -/
  | negative
  /-- A value of a kind that gives no truth value. -/
  | notBoolean
  /-- A text or number that names no truth value. -/
  | unreadableBoolean
  /-- A range of lines that ends before it starts. -/
  | reversedRange (filename : String) (startLine endLine : Nat)
  deriving DecidableEq, Repr

/-- What the model itself says about a violation. For most violations it has no text of its own. -/
def Violation.message? : Violation → Option String
  | .reversedRange filename startLine endLine =>
    some ("end_line " ++ Text.intText endLine ++ " is before start_line " ++
      Text.intText startLine ++ " in " ++ filename)
  | _ => none

/-- A violation, and the steps that lead to its place. -/
structure Finding where
  place : List Step
  violation : Violation
  deriving DecidableEq, Repr

/-- The faults that end a check. -/
inductive Breakdown
  /-- A payload that has no items where items are called for. -/
  | noItems
  /-- A payload that has no members where members are called for. -/
  | noMembers
  deriving DecidableEq, Repr

/-- The outcome of a check. -/
inductive Checked (α : Type)
  | valid (value : α)
  | invalid (findings : List Finding)
  | broken (breakdown : Breakdown)
  deriving Repr

namespace Checked

variable {α β γ : Type}

/-- The outcome with a function applied to the value. -/
def map (f : α → β) : Checked α → Checked β
  | .valid a => .valid (f a)
  | .invalid fs => .invalid fs
  | .broken b => .broken b

/-- Two checks side by side: the findings of the first come before those of the second, and a
breakdown of either is the outcome. -/
def both (x : Checked α) (y : Checked β) : Checked (α × β) :=
  match x, y with
  | .broken b, _ => .broken b
  | _, .broken b => .broken b
  | .invalid fs, .invalid gs => .invalid (fs ++ gs)
  | .invalid fs, .valid _ => .invalid fs
  | .valid _, .invalid gs => .invalid gs
  | .valid a, .valid b => .valid (a, b)

/-- A check that is only done if another one has given a value. -/
def andThen (x : Checked α) (f : α → Checked β) : Checked β :=
  match x with
  | .valid a => f a
  | .invalid fs => .invalid fs
  | .broken b => .broken b

/-- A single violation at the value that is checked. -/
def violated (v : Violation) : Checked α :=
  .invalid [⟨[], v⟩]

/-- The outcome for a part, with the step to it in front of all places. -/
def under (step : Step) : Checked α → Checked α
  | .valid a => .valid a
  | .invalid fs => .invalid (fs.map fun f => ⟨step :: f.place, f.violation⟩)
  | .broken b => .broken b

instance : Functor Checked := ⟨fun f x => x.map f, fun a x => x.map fun _ => a⟩

/-- Checks side by side in the order in which they are written. -/
instance : Applicative Checked where
  pure := .valid
  seq f x := ((f.both (x ())).map fun p => p.1 p.2)

@[simp]
theorem both_eq_valid {x : Checked α} {y : Checked β} {p : α × β} :
    x.both y = .valid p ↔ x = .valid p.1 ∧ y = .valid p.2 := by
  obtain ⟨a, b⟩ := p
  cases x <;> cases y <;> simp [both]

@[simp]
theorem map_eq_valid {f : α → β} {x : Checked α} {b : β} :
    x.map f = .valid b ↔ ∃ a, x = .valid a ∧ f a = b := by
  cases x <;> simp [map]

@[simp]
theorem andThen_eq_valid {x : Checked α} {f : α → Checked β} {b : β} :
    x.andThen f = .valid b ↔ ∃ a, x = .valid a ∧ f a = .valid b := by
  cases x <;> simp [andThen]

@[simp]
theorem under_eq_valid {step : Step} {x : Checked α} {a : α} :
    x.under step = .valid a ↔ x = .valid a := by
  cases x <;> simp [under]

@[simp]
theorem functor_map_eq_valid {f : α → β} {x : Checked α} {b : β} :
    f <$> x = .valid b ↔ ∃ a, x = .valid a ∧ f a = b :=
  map_eq_valid

/-- Checks side by side give a value if and only if each of them does. -/
@[simp]
theorem seq_eq_valid {f : Checked (α → β)} {x : Checked α} {b : β} :
    f <*> x = .valid b ↔ ∃ g a, f = .valid g ∧ x = .valid a ∧ g a = b := by
  show (f.both x).map (fun p => p.1 p.2) = .valid b ↔ _
  simp [and_assoc]

end Checked

end BlockDoc
