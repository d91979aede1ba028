/-!
# Journals

What a program notes down while it runs, beside its result. The notes that were made before a
failure are kept.

## Main definitions

* `LogLevel` — the weight of a note
* `LogRecord` — a note
* `Journaled` — a result with the notes made on the way to it
-/

namespace BlockDoc

/-- The weight of a note. -/
inductive LogLevel
  | debug
  | info
  | warning
  | error
  deriving DecidableEq, Repr

namespace LogLevel

/-- The name of a level. -/
def name : LogLevel → String
  | .debug => "DEBUG"
  | .info => "INFO"
  | .warning => "WARNING"
  | .error => "ERROR"

/-- The number of a level; higher ones weigh more. -/
def severity : LogLevel → Nat
  | .debug => 10
  | .info => 20
  | .warning => 30
  | .error => 40

end LogLevel

/-- A note: its weight, the part of the program that made it, and its text. -/
structure LogRecord where
  level : LogLevel
  source : String
  text : String
  deriving DecidableEq, Repr

/-- A result together with the notes made on the way to it, the earliest first. -/
@[ext]
structure Journaled (α : Type) where
  result : α
  notes : List LogRecord

namespace Journaled

variable {α β : Type}

/-- A result without notes. -/
def silent (a : α) : Journaled α := ⟨a, []⟩

/-- The result of a step that uses the result of another one; its notes follow on the notes of that
step. -/
def andThen (x : Journaled α) (f : α → Journaled β) : Journaled β :=
  let y := f x.result
  ⟨y.result, x.notes ++ y.notes⟩

/-- A note without a result. -/
def note (record : LogRecord) : Journaled Unit := ⟨(), [record]⟩

instance : Monad Journaled where
  pure := silent
  bind := andThen

@[simp]
theorem pure_result (a : α) : (pure a : Journaled α).result = a := rfl

@[simp]
theorem pure_notes (a : α) : (pure a : Journaled α).notes = [] := rfl

@[simp]
theorem bind_result (x : Journaled α) (f : α → Journaled β) :
    (x >>= f).result = (f x.result).result := rfl

@[simp]
theorem bind_notes (x : Journaled α) (f : α → Journaled β) :
    (x >>= f).notes = x.notes ++ (f x.result).notes := rfl

/-- Steps may be grouped in any way, and steps without notes may be left out. -/
instance : LawfulMonad Journaled :=
  LawfulMonad.mk' _
    (fun x => Journaled.ext rfl (by
      show x.notes ++ [] = x.notes
      simp))
    (fun _ _ => rfl)
    (fun x f g => Journaled.ext rfl (by
      show (x.notes ++ (f x.result).notes) ++ (g (f x.result).result).notes =
        x.notes ++ ((f x.result).notes ++ (g (f x.result).result).notes)
      simp))

@[simp]
theorem map_result (f : α → β) (x : Journaled α) : (f <$> x).result = f x.result := rfl

@[simp]
theorem map_notes (f : α → β) (x : Journaled α) : (f <$> x).notes = x.notes := by
  show x.notes ++ [] = x.notes
  simp

end Journaled

end BlockDoc
