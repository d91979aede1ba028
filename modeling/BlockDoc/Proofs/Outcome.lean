import BlockDoc.Document.Builder

/-!
# What computations come to

The results of attempts, and of steps that act on a state, with the notes left aside.

## Main definitions

* `Attempt.outcome` — what an attempt comes to
* `Journaled.after` — what a step comes to, and the state in which it ends
-/

namespace BlockDoc

namespace Attempt

variable {ε α β : Type}

/-- What an attempt comes to, its notes left aside. -/
def outcome (x : Attempt ε α) : Except ε α := x.run.result

@[simp]
theorem outcome_pure (a : α) : outcome (pure a : Attempt ε α) = .ok a := rfl

@[simp]
theorem outcome_liftM (x : Journaled α) : outcome (liftM x : Attempt ε α) = .ok x.result := rfl

theorem outcome_map (f : α → β) (x : Attempt ε α) : outcome (f <$> x) = x.outcome.map f := by
  have hmap : outcome (f <$> x) = (match x.outcome with
      | .ok a => pure (.ok (f a))
      | .error e => pure (.error e) : Journaled (Except ε β)).result := rfl
  rw [hmap]
  cases x.outcome with
  | error e => rfl
  | ok a => rfl

theorem outcome_bind_eq_ok {x : Attempt ε α} {f : α → Attempt ε β} {b : β} :
    outcome (x >>= f) = .ok b ↔ ∃ a, x.outcome = .ok a ∧ (f a).outcome = .ok b := by
  have hbind : outcome (x >>= f) = (ExceptT.bindCont f x.outcome).result := rfl
  rw [hbind]
  cases x.outcome with
  | error e => simp [ExceptT.bindCont]
  | ok a => simp [ExceptT.bindCont, outcome, ExceptT.run]

end Attempt

theorem exists_ok_of_toBool {ε α : Type} {x : Except ε α} (h : x.toBool = true) :
    ∃ a, x = .ok a := by
  cases x with
  | error e => cases h
  | ok a => exact ⟨a, rfl⟩

theorem exists_of_map_eq_ok {ε α β : Type} {x : Except ε α} {f : α → β} {b : β}
    (h : x.map f = .ok b) : ∃ a, x = .ok a ∧ f a = b := by
  cases x with
  | error e => cases h
  | ok a => exact ⟨a, rfl, Except.ok.inj h⟩

namespace Journaled

variable {ε σ α β : Type}

/-- What a step on a state comes to, and the state in which it ends. Its notes are left aside. -/
def after (x : ExceptT ε (StateT σ Journaled) α) (s : σ) : Except ε α × σ :=
  (x.run.run s).result

theorem after_bind (x : ExceptT ε (StateT σ Journaled) α)
    (f : α → ExceptT ε (StateT σ Journaled) β) (s : σ) :
    after (x >>= f) s =
      match after x s with
      | (.ok a, t) => after (f a) t
      | (.error e, t) => (.error e, t) := by
  have hbind : after (x >>= f) s =
      (StateT.run (ExceptT.bindCont f (after x s).1) (after x s).2).result := rfl
  rw [hbind]
  obtain ⟨outcome, t⟩ := after x s
  cases outcome with
  | ok a => rfl
  | error e => rfl

variable {x : ExceptT ε (StateT σ Journaled) α} {f : α → ExceptT ε (StateT σ Journaled) β}
  {s u : σ}

theorem after_bind_eq_ok {b : β} :
    after (x >>= f) s = (.ok b, u) ↔
      ∃ a t, after x s = (.ok a, t) ∧ after (f a) t = (.ok b, u) := by
  rw [after_bind]
  obtain ⟨outcome, t⟩ := after x s
  cases outcome with
  | ok a => simp [and_assoc]
  | error e => simp

theorem after_bind_eq_error {e : ε} :
    after (x >>= f) s = (.error e, u) ↔
      after x s = (.error e, u) ∨
        ∃ a t, after x s = (.ok a, t) ∧ after (f a) t = (.error e, u) := by
  rw [after_bind]
  obtain ⟨outcome, t⟩ := after x s
  cases outcome with
  | ok a => simp [and_assoc]
  | error e => simp

end Journaled

end BlockDoc
