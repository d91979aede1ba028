import BlockDoc.Json.Reader
import BlockDoc.Proofs.Decimal.Reading

/-!
# Integers that are not read

The reader of JSON gives up on the whole text over an integer of too many digits. It does so with
good reason: the digits stand in the text, and there are more of them than are read.

## Main definitions

* `FailsOnlyWith` — the errors of a result have a property
* `Text.HasDigits` — so many digits stand in a row in a text
* `Json.Fault.IsFair` — a fault over an integer has its reason in the text

## Main results

* `Json.failsOnlyWith_read` — all faults of the reader are fair
-/

namespace BlockDoc

-- ════════════════════════════════════════════════════════════════════════
-- Errors of results
-- ════════════════════════════════════════════════════════════════════════

section Results

variable {ε α β : Type} {P : ε → Prop}

/-- The errors of a result have a property. -/
def FailsOnlyWith (P : ε → Prop) (x : Except ε α) : Prop :=
  ∀ e, x = .error e → P e

theorem FailsOnlyWith.ok (a : α) : FailsOnlyWith P (.ok a : Except ε α) := nofun

theorem FailsOnlyWith.error {e : ε} (h : P e) : FailsOnlyWith P (.error e : Except ε α) := by
  rintro _ ⟨⟩
  exact h

theorem FailsOnlyWith.mono {Q : ε → Prop} {x : Except ε α} (h : FailsOnlyWith P x)
    (hPQ : ∀ e, P e → Q e) : FailsOnlyWith Q x :=
  fun e he => hPQ e (h e he)

theorem FailsOnlyWith.bind {x : Except ε α} {f : α → Except ε β} (hx : FailsOnlyWith P x)
    (hf : ∀ a, x = .ok a → FailsOnlyWith P (f a)) : FailsOnlyWith P (x >>= f) := by
  cases x with
  | ok a => exact hf a rfl
  | error e => exact .error (hx e rfl)

theorem FailsOnlyWith.map {x : Except ε α} (hx : FailsOnlyWith P x) (f : α → β) :
    FailsOnlyWith P (x.map f) := by
  cases x with
  | ok a => exact .ok _
  | error e => exact .error (hx e rfl)

end Results

-- ════════════════════════════════════════════════════════════════════════
-- Digits in a row
-- ════════════════════════════════════════════════════════════════════════

/-- In a text stand so many digits in a row. -/
def Text.HasDigits (cs : List Char) (n : Nat) : Prop :=
  ∃ ds, ds <:+: cs ∧ ds.length = n ∧ ∀ c ∈ ds, isAsciiDigit c = true

theorem Text.HasDigits.mono {cs text : List Char} {n : Nat} (h : HasDigits cs n)
    (hpart : cs <:+: text) : HasDigits text n := by
  obtain ⟨ds, hds, hlength, hall⟩ := h
  exact ⟨ds, hds.trans hpart, hlength, hall⟩

theorem Decimal.hasDigits_takeDigits (cs : List Char) :
    Text.HasDigits cs (takeDigits cs).1.length := by
  obtain ⟨ds, chars, hplain, hcs, hds⟩ := exists_takeDigits cs
  refine ⟨chars, ⟨[], (takeDigits cs).2, hcs.symm⟩, ?_, fun c hc => ?_⟩
  · rw [hds, List.length_map, ← hplain.length_eq, List.length_map]
  · obtain ⟨s, hs, hc⟩ := exists_of_forall₂_of_mem hplain hc
    obtain ⟨d, -, rfl⟩ := List.mem_map.mp hs
    have hdigit : Text.asciiDigit? c = some d.val := hc
    rw [Text.isAsciiDigit, hdigit, Option.isSome_some]

-- ════════════════════════════════════════════════════════════════════════
-- JSON texts
-- ════════════════════════════════════════════════════════════════════════

namespace Json

/-- A token for an integer that is not read stands for digits of the text, and for more of them than
are read. -/
def Lexeme.IsFair (text : List Char) : Lexeme → Prop
  | .oversized digits => digitLimit < digits ∧ Text.HasDigits text digits
  | _ => True

theorem Lexeme.IsFair.mono {cs text : List Char} {lexeme : Lexeme} (h : lexeme.IsFair cs)
    (hpart : cs <:+: text) : lexeme.IsFair text := by
  cases lexeme with
  | oversized digits => exact ⟨h.1, h.2.mono hpart⟩
  | _ => trivial

theorem isFair_scanString (text : List Char) (start offset : Nat) (units : List Nat)
    (cs : List Char) : (scanString start offset units cs).1.IsFair text := by
  fun_induction scanString start offset units cs with
  | case1 | case2 | case4 | case5 | case7 | case8 | case9 => trivial
  | case3 | case6 | case10 => assumption

/-- More digits than one are all the digits that stand there. -/
theorem hasDigits_takeWhole {cs : List Char} (h : 1 < (takeWhole cs).length) :
    Text.HasDigits cs (takeWhole cs).length := by
  have hdigits := Decimal.hasDigits_takeDigits cs
  unfold takeWhole at h ⊢
  split at h
  · exact absurd h (Nat.lt_irrefl 1)
  · next ds rest _ heq =>
    rw [heq] at hdigits
    exact hdigits

theorem isFair_of_scanNumber? {cs : List Char} {found : Lexeme × Nat}
    (h : scanNumber? cs = some found) : found.1.IsFair cs := by
  unfold scanNumber? at h
  split at h
  next negative rest hsign =>
  have hrest : rest <:+: cs := by
    split at hsign
    · cases hsign
      exact (List.suffix_cons '-' _).isInfix
    · cases hsign
      exact List.infix_refl cs
  dsimp only at h
  split at h
  · cases h
  · split at h
    · split at h
      · next hlimit =>
        obtain rfl := Option.some.inj h
        have hwhole := hasDigits_takeWhole (Nat.lt_trans (by decide) hlimit)
        exact ⟨hlimit, hwhole.mono hrest⟩
      · obtain rfl := Option.some.inj h
        trivial
    · obtain rfl := Option.some.inj h
      trivial
    · obtain rfl := Option.some.inj h
      trivial

theorem isFair_scan (offset : Nat) (cs : List Char) : (scan offset cs).1.IsFair cs := by
  unfold scan
  split
  · trivial
  · next c cs =>
    split
    · trivial
    · split
      · exact isFair_scanString _ offset (offset + 1) [] cs
      · split
        · next found hfound =>
          obtain ⟨w, -, rfl⟩ := Option.map_eq_some_iff.mp hfound
          trivial
        · cases hnumber : scanNumber? (c :: cs) with
          | none => trivial
          | some found => exact isFair_of_scanNumber? hnumber

theorem isFair_of_mem_tokensFrom {offset skip : Nat} {cs : List Char} {t : Token}
    (h : t ∈ tokensFrom offset skip cs) : t.lexeme.IsFair cs := by
  induction cs generalizing offset skip with
  | nil => cases h
  | cons c cs ih =>
    have hcs : cs <:+: c :: cs := (List.suffix_cons c cs).isInfix
    unfold tokensFrom at h
    split at h
    · exact (ih h).mono hcs
    · split at h
      · exact (ih h).mono hcs
      · rcases List.mem_cons.mp h with rfl | h
        · exact isFair_scan offset (c :: cs)
        · exact (ih h).mono hcs

/-- A fault for an integer that is not read stands for digits of the text, and for more of them than
are read. -/
def Fault.IsFair (text : List Char) : Fault → Prop
  | .malformed _ _ => True
  | .oversized digits => digitLimit < digits ∧ Text.HasDigits text digits

section Reader

variable {text : List Char}

theorem State.failsOnlyWith_takeValue (outer : List Frame) {t : Token} (h : t.lexeme.IsFair text) :
    FailsOnlyWith (Fault.IsFair text) (takeValue outer t) := by
  unfold takeValue
  split
  · exact .ok _
  · exact .ok _
  · exact .ok _
  · exact .ok _
  · exact .error trivial
  · next digits hdigits =>
    rw [hdigits] at h
    exact .error h
  · exact .error trivial

theorem State.failsOnlyWith_takeName (members : List (Datum × Datum)) (outer : List Frame)
    (t : Token) : FailsOnlyWith (Fault.IsFair text) (takeName members outer t) := by
  unfold takeName
  split
  · exact .ok _
  · exact .error trivial
  · exact .error trivial

theorem State.failsOnlyWith_step (s : State) {t : Token} (h : t.lexeme.IsFair text) :
    FailsOnlyWith (Fault.IsFair text) (s.step t) := by
  cases s with
  | value outer => exact failsOnlyWith_takeValue outer h
  | firstItem outer =>
    unfold step
    dsimp only
    split
    · exact .ok _
    · exact failsOnlyWith_takeValue _ h
  | afterItem items outer =>
    unfold step
    dsimp only
    split
    · exact .ok _
    · exact .ok _
    · exact .error trivial
  | firstName outer =>
    unfold step
    dsimp only
    split
    · exact .ok _
    · exact failsOnlyWith_takeName _ _ t
  | nextName members outer => exact failsOnlyWith_takeName _ _ t
  | colon members name outer =>
    unfold step
    dsimp only
    split
    · exact .ok _
    · exact .error trivial
  | afterMember members outer =>
    unfold step
    dsimp only
    split
    · exact .ok _
    · exact .ok _
    · exact .error trivial
  | finished d => exact .error trivial

theorem State.failsOnlyWith_run (length : Nat) (s : State) {ts : List Token}
    (h : ∀ t ∈ ts, t.lexeme.IsFair text) : FailsOnlyWith (Fault.IsFair text) (s.run length ts) := by
  induction ts generalizing s with
  | nil =>
    cases s with
    | finished d => exact .ok d
    | _ => exact .error trivial
  | cons t ts ih =>
    obtain ⟨ht, hts⟩ := List.forall_mem_cons.mp h
    unfold run
    split
    · exact ih _ hts
    · next f hf => exact .error (failsOnlyWith_step s ht f hf)

end Reader

theorem failsOnlyWith_read (cs : List Char) : FailsOnlyWith (Fault.IsFair cs) (read cs) := by
  unfold read
  split
  · exact .error trivial
  · exact State.failsOnlyWith_run _ _ fun t ht => isFair_of_mem_tokensFrom ht

end Json

end BlockDoc
