import BlockDoc.Decimal.Text
import BlockDoc.Proofs.Decimal.Value
import Mathlib.Data.List.Forall2
import Mathlib.Tactic.Ring

/-!
# Decimal numerals

The grammar of the texts that denote finite decimal numbers. A numeral has an optional sign, digits
with an optional point among them, and an optional exponent; its value is told from its digits by
position. A text spells a numeral if it consists, between blanks and among underscores, of one
character for each of its symbols: digits may be of any script, and the mark of the exponent may be
of either case.

## Main definitions

* `Numeral` — numerals, with `Numeral.value` and `Numeral.toDecimal`
* `Numeral.IsSpelledBy` — the texts that spell a numeral

## Main results

* `Numeral.value?_toDecimal` — the number of a numeral has the value of the numeral
* `Symbol.isPlain_asciiDigit` — a text may be reduced to ASCII digits
-/

namespace BlockDoc

/-- What the characters of a numeral stand for. -/
inductive Symbol
  | sign (negative : Bool)
  | digit (d : Fin 10)
  | point
  | mark
  deriving DecidableEq, Repr

/-- The characters that stand for a symbol. -/
def Symbol.IsSpelledBy : Symbol → Char → Prop
  | .sign negative, c => c = if negative then '-' else '+'
  | .digit d, c => Text.digitValue? c = some d
  | .point, c => c = '.'
  | .mark, c => c = 'e' ∨ c = 'E'

/-- A numeral: an optional sign, digits before an optional point and after it, and an optional
exponent with a sign of its own. There is a digit, and the exponent has one. -/
structure Numeral where
  sign : Option Bool
  whole : List (Fin 10)
  fraction : Option (List (Fin 10))
  exponent : Option (Option Bool × List (Fin 10))
  hasDigit : whole ≠ [] ∨ fraction.getD [] ≠ []
  exponentHasDigit : ∀ e ∈ exponent, e.2 ≠ []

namespace Numeral

-- ════════════════════════════════════════════════════════════════════════
-- The grammar
-- ════════════════════════════════════════════════════════════════════════

/-- The symbols of an optional sign. -/
def signSymbols (sign : Option Bool) : List Symbol :=
  sign.toList.map .sign

/-- The symbols of an optional fraction. -/
def fractionSymbols : Option (List (Fin 10)) → List Symbol
  | none => []
  | some ds => .point :: ds.map .digit

/-- The symbols of an optional exponent. -/
def exponentSymbols : Option (Option Bool × List (Fin 10)) → List Symbol
  | none => []
  | some (sign, ds) => .mark :: (signSymbols sign ++ ds.map .digit)

/-- The symbols of a numeral after its sign. -/
def unsignedSymbols (n : Numeral) : List Symbol :=
  n.whole.map .digit ++ (fractionSymbols n.fraction ++ exponentSymbols n.exponent)

/-- The symbols of a numeral in order. -/
def symbols (n : Numeral) : List Symbol :=
  signSymbols n.sign ++ n.unsignedSymbols

/-- A text spells a numeral if, between blanks and but for underscores, its characters stand for the
symbols of the numeral one by one. -/
def IsSpelledBy (n : Numeral) (cs : List Char) : Prop :=
  ∃ before body after, cs = before ++ body ++ after ∧
    (∀ c ∈ before, Text.isBlank c = true) ∧ (∀ c ∈ after, Text.isBlank c = true) ∧
    List.Forall₂ Symbol.IsSpelledBy n.symbols (body.filter (· ≠ '_'))

-- ════════════════════════════════════════════════════════════════════════
-- Values
-- ════════════════════════════════════════════════════════════════════════

/-- The natural number that digits denote. -/
def digitsValue (ds : List (Fin 10)) : Nat :=
  Text.ofDigits 10 (ds.map (·.val))

/-- The integer that an exponent denotes, zero if it is absent. -/
def exponentValue : Option (Option Bool × List (Fin 10)) → Int
  | none => 0
  | some (sign, ds) => signed (sign.getD false) (digitsValue ds)

/-- The value of a numeral: the digits before the point, the digits after it in units of the last of
them, and the power of ten. -/
def value (n : Numeral) : ℚ :=
  (if n.sign = some true then -1 else 1) *
    (digitsValue n.whole + digitsValue (n.fraction.getD []) / 10 ^ (n.fraction.getD []).length) *
      10 ^ exponentValue n.exponent

/-- The number with all digits of a numeral as its coefficient. -/
def toDecimal (n : Numeral) : Decimal :=
  .finite (n.sign.getD false) (digitsValue (n.whole ++ n.fraction.getD []))
    (exponentValue n.exponent - (n.fraction.getD []).length)

theorem ofDigits_append (ds es : List Nat) :
    Text.ofDigits 10 (ds ++ es) = Text.ofDigits 10 ds * 10 ^ es.length + Text.ofDigits 10 es := by
  induction es using List.reverseRecOn with
  | nil => simp [Text.ofDigits]
  | append_singleton es e ih =>
    rw [← List.append_assoc, Text.ofDigits_append_singleton, ih, Text.ofDigits_append_singleton,
      List.length_append, List.length_singleton, Nat.pow_succ]
    ring

theorem digitsValue_append (ds es : List (Fin 10)) :
    digitsValue (ds ++ es) = digitsValue ds * 10 ^ es.length + digitsValue es := by
  rw [digitsValue, List.map_append, ofDigits_append, List.length_map]
  rfl

/-- The number of a numeral has the value of the numeral. -/
theorem value?_toDecimal (n : Numeral) : n.toDecimal.value? = some n.value := by
  have hsign : ∀ m : Nat, (signed (n.sign.getD false) m : ℚ) =
      (if n.sign = some true then -1 else 1) * m := by
    intro m
    rcases hn : n.sign with _ | negative
    · simp [signed]
    · cases negative <;> simp [signed]
  have hunit : (10 : ℚ) ^ (n.fraction.getD []).length ≠ 0 := pow_ne_zero _ (by norm_num)
  rw [toDecimal, Decimal.value?_finite, value, hsign, digitsValue_append,
    zpow_sub₀ (by norm_num), zpow_natCast]
  congr 1
  push_cast
  field_simp

end Numeral

-- ════════════════════════════════════════════════════════════════════════
-- Plain characters
-- ════════════════════════════════════════════════════════════════════════

/-- The characters that stand for a symbol in a text with ASCII digits. -/
def Symbol.IsPlain : Symbol → Char → Prop
  | .sign negative, c => c = if negative then '-' else '+'
  | .digit d, c => Text.asciiDigit? c = some d
  | .point, c => c = '.'
  | .mark, c => c = 'e' ∨ c = 'E'

namespace Text

theorem digitValue?_lt {c : Char} {d : Nat} (h : digitValue? c = some d) : d < 10 := by
  obtain ⟨z, hz, rfl⟩ := Option.map_eq_some_iff.mp h
  have hrange := List.find?_some hz
  simp only [Bool.and_eq_true, decide_eq_true_eq] at hrange
  omega

theorem asciiDigit?_lt {c : Char} {d : Nat} (h : asciiDigit? c = some d) : d < 10 := by
  unfold asciiDigit? at h
  split at h
  · next hrange =>
    obtain rfl := Option.some.inj h
    have hzero : '0'.toNat = 48 := rfl
    have hnine : '9'.toNat = 57 := rfl
    omega
  · cases h

/-- No digit is a blank. -/
theorem isBlank_of_digitValue? {c : Char} {d : Nat} (h : digitValue? c = some d) :
    isBlank c = false := by
  have hall : ∀ z ∈ zeroDigits, ∀ k < 10, isBlank (Char.ofNat (z + k)) = false := by
    decide +kernel
  obtain ⟨z, hz, -⟩ := Option.map_eq_some_iff.mp h
  have hrange := List.find?_some hz
  simp only [Bool.and_eq_true, decide_eq_true_eq] at hrange
  have hc := hall z (List.mem_of_find?_eq_some hz) (c.toNat - z) (by omega)
  rwa [Nat.add_sub_of_le hrange.1, Char.ofNat_toNat] at hc

/-- The ASCII digits come first among the digits of all scripts. -/
theorem digitValue?_of_asciiDigit? {c : Char} {d : Nat} (h : asciiDigit? c = some d) :
    digitValue? c = some d := by
  have hlt := asciiDigit?_lt h
  unfold asciiDigit? at h
  split at h
  · next hrange =>
    obtain rfl := Option.some.inj h
    have hzero : '0'.toNat = 0x30 := rfl
    have hsplit : zeroDigits = 0x30 :: zeroDigits.tail := rfl
    have hfirst : (decide (0x30 ≤ c.toNat) && decide (c.toNat < 0x30 + 10)) = true := by
      simp only [Bool.and_eq_true, decide_eq_true_eq]
      omega
    rw [digitValue?, hsplit, List.find?_cons, hfirst]
    rfl
  · cases h

theorem eq_ofNat_of_asciiDigit? {c : Char} {d : Nat} (h : asciiDigit? c = some d) :
    c = Char.ofNat ('0'.toNat + d) := by
  unfold asciiDigit? at h
  split at h
  · next hrange =>
    obtain rfl := Option.some.inj h
    rw [Nat.add_sub_of_le hrange.1, Char.ofNat_toNat]
  · cases h

theorem asciiDigit?_ofNat {d : Nat} (h : d < 10) :
    asciiDigit? (Char.ofNat ('0'.toNat + d)) = some d := by
  have hall : ∀ d : Fin 10, asciiDigit? (Char.ofNat ('0'.toNat + d)) = some d.val := by decide
  exact hall ⟨d, h⟩

end Text

namespace Decimal

/-- The ASCII digit for a digit of any script has the same value, and other characters have none. -/
theorem asciiDigit?_asciiDigit (c : Char) :
    Text.asciiDigit? (asciiDigit c) = Text.digitValue? c := by
  unfold asciiDigit
  split
  · next d hd => rw [Text.asciiDigit?_ofNat (Text.digitValue?_lt hd), hd]
  · next hnone =>
    rw [hnone, Option.eq_none_iff_forall_ne_some]
    intro d hd
    rw [Text.digitValue?_of_asciiDigit? hd] at hnone
    cases hnone

/-- A character that is no digit results from itself only. -/
theorem asciiDigit_eq_iff {c x : Char} (hx : Text.digitValue? x = none) :
    asciiDigit c = x ↔ c = x := by
  have hascii : Text.asciiDigit? x = none := by
    rw [Option.eq_none_iff_forall_ne_some]
    intro d hd
    rw [Text.digitValue?_of_asciiDigit? hd] at hx
    cases hx
  cases hc : Text.digitValue? c with
  | none => rw [asciiDigit, hc]
  | some d =>
    refine iff_of_false ?_ ?_
    · rintro rfl
      rw [asciiDigit?_asciiDigit, hc] at hascii
      cases hascii
    · rintro rfl
      rw [hx] at hc
      cases hc

end Decimal

/-- Replacing the digits of all scripts by ASCII digits keeps what a character stands for. -/
theorem Symbol.isPlain_asciiDigit (s : Symbol) (c : Char) :
    s.IsPlain (Decimal.asciiDigit c) ↔ s.IsSpelledBy c := by
  cases s with
  | sign negative => cases negative <;> exact Decimal.asciiDigit_eq_iff (by decide)
  | digit d => rw [IsPlain, Decimal.asciiDigit?_asciiDigit, IsSpelledBy]
  | point => exact Decimal.asciiDigit_eq_iff (by decide)
  | mark =>
    exact or_congr (Decimal.asciiDigit_eq_iff (by decide)) (Decimal.asciiDigit_eq_iff (by decide))

/-- A character of a numeral is no blank. -/
theorem Symbol.IsSpelledBy.isBlank_eq_false {s : Symbol} {c : Char} (h : s.IsSpelledBy c) :
    Text.isBlank c = false := by
  cases s with
  | sign negative =>
    cases negative with
    | false => obtain rfl : c = '+' := h; decide
    | true => obtain rfl : c = '-' := h; decide
  | digit d => exact Text.isBlank_of_digitValue? h
  | point => obtain rfl : c = '.' := h; decide
  | mark => rcases h with rfl | rfl <;> decide

end BlockDoc
