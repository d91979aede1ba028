import BlockDoc.Proofs.Decimal.Reading
import BlockDoc.Proofs.Text.Decode

/-!
# Writing decimal numbers

The text of a finite number, positional or scientific, spells a numeral with the same coefficient
and the same exponent. Reading it gives back the number, and so does reading the text of an integer.

## Main results

* `Decimal.exists_isSpelledBy_text` — the text of a finite number spells a numeral of the number
* `Decimal.ofText?_text` — a number in range is read back from its text
* `Decimal.ofText?_intText` — an integer is read from its text
-/

namespace BlockDoc

-- ════════════════════════════════════════════════════════════════════════
-- Plain texts
-- ════════════════════════════════════════════════════════════════════════

theorem Symbol.IsPlain.isSpelledBy {s : Symbol} {c : Char} (h : s.IsPlain c) : s.IsSpelledBy c := by
  cases s with
  | digit d => exact Text.digitValue?_of_asciiDigit? h
  | sign negative => exact h
  | point => exact h
  | mark => exact h

/-- An underscore stands for no symbol. -/
theorem Symbol.IsSpelledBy.ne_underscore {s : Symbol} {c : Char} (h : s.IsSpelledBy c) :
    c ≠ '_' := by
  rintro rfl
  cases s with
  | sign negative => cases negative <;> simp [IsSpelledBy] at h
  | digit d =>
    have hnone : Text.digitValue? '_' = none := by decide
    rw [IsSpelledBy, hnone] at h
    cases h
  | point => simp [IsSpelledBy] at h
  | mark => simp [IsSpelledBy] at h

namespace Numeral

/-- A numeral is spelled by plain characters of its symbols. -/
theorem isSpelledBy_of_isPlain {n : Numeral} {cs : List Char}
    (h : List.Forall₂ Symbol.IsPlain n.symbols cs) : n.IsSpelledBy cs := by
  have hspelled : List.Forall₂ Symbol.IsSpelledBy n.symbols cs :=
    h.imp fun _ _ hplain => hplain.isSpelledBy
  have hfilter : cs.filter (· ≠ '_') = cs := by
    rw [List.filter_eq_self]
    intro c hc
    obtain ⟨s, -, hs⟩ := exists_of_forall₂_of_mem hspelled hc
    simpa using hs.ne_underscore
  exact ⟨[], cs, [], by simp, nofun, nofun, hfilter.symm ▸ hspelled⟩

end Numeral

namespace Decimal

open Numeral

-- ════════════════════════════════════════════════════════════════════════
-- Digits
-- ════════════════════════════════════════════════════════════════════════

theorem asciiDigit?_of_isDigit {c : Char} (h : c.isDigit = true) :
    Text.asciiDigit? c = some (c.toNat - '0'.toNat) := by
  simp only [Char.isDigit, Bool.and_eq_true, decide_eq_true_eq, ge_iff_le] at h
  exact if_pos ⟨UInt32.le_iff_toNat_le.mp h.1, UInt32.le_iff_toNat_le.mp h.2⟩

/-- A text of ASCII digits has the symbols of digits that denote the same number. -/
theorem exists_digits_of_isDigit {cs : List Char} (h : ∀ c ∈ cs, c.isDigit = true) :
    ∃ ds : List (Fin 10), ArePlain (ds.map .digit) cs ∧
      digitsValue ds = Nat.ofDigitChars 10 cs 0 := by
  induction cs using List.reverseRecOn with
  | nil => exact ⟨[], .nil, rfl⟩
  | append_singleton cs c ih =>
    obtain ⟨ds, hplain, hvalue⟩ := ih fun x hx => h x (List.mem_append_left _ hx)
    have hdigit := asciiDigit?_of_isDigit (h c (by simp))
    let d : Fin 10 := ⟨c.toNat - '0'.toNat, Text.asciiDigit?_lt hdigit⟩
    refine ⟨ds ++ [d], ?_, ?_⟩
    · rw [List.map_append]
      exact List.rel_append hplain (.cons hdigit .nil)
    · rw [digitsValue_append, hvalue, Nat.ofDigitChars, Nat.ofDigitChars, List.foldl_append]
      simp only [List.length_singleton, pow_one, List.foldl_cons, List.foldl_nil, digitsValue,
        List.map_cons, List.map_nil, Text.ofDigits, d]
      ring

/-- Leading zeros do not change the number that digits denote. -/
theorem ofDigitChars_replicate_zero_append (k : Nat) (cs : List Char) :
    Nat.ofDigitChars 10 (List.replicate k '0' ++ cs) 0 = Nat.ofDigitChars 10 cs 0 := by
  induction k with
  | zero => rfl
  | succ k ih =>
    rw [List.replicate_succ, List.cons_append, ← ih]
    rfl

/-- The digits of a number, filled up with zeros on the left, denote the number. -/
theorem exists_digits_of_padded (k c : Nat) :
    ∃ ds : List (Fin 10), ArePlain (ds.map .digit) (List.replicate k '0' ++ Text.natChars c) ∧
      digitsValue ds = c := by
  have hdigits : ∀ x ∈ List.replicate k '0' ++ Text.natChars c, x.isDigit = true := by
    intro x hx
    rcases List.mem_append.mp hx with hx | hx
    · rw [List.eq_of_mem_replicate hx]
      decide
    · exact Text.isDigit_of_mem_natChars hx
  obtain ⟨ds, hplain, hvalue⟩ := exists_digits_of_isDigit hdigits
  rw [ofDigitChars_replicate_zero_append, Text.natChars, Nat.ofDigitChars_ten_toDigits] at hvalue
  exact ⟨ds, hplain, hvalue⟩

theorem exists_digits_of_natChars (c : Nat) :
    ∃ d ds, ArePlain (.digit d :: ds.map .digit) (Text.natChars c) ∧ digitsValue (d :: ds) = c := by
  obtain ⟨ds, hplain, hvalue⟩ := exists_digits_of_padded 0 c
  rcases ds with _ | ⟨d, ds⟩
  · exact absurd (List.forall₂_nil_left_iff.mp hplain) Nat.toDigits_ne_nil
  · exact ⟨d, ds, hplain, hvalue⟩

-- ════════════════════════════════════════════════════════════════════════
-- Notations
-- ════════════════════════════════════════════════════════════════════════

/-- A text is that of an unsigned numeral with a given coefficient and a given power of ten. -/
def IsMagnitude (c : Nat) (e : Int) (cs : List Char) : Prop :=
  ∃ n : Numeral, ArePlain n.unsignedSymbols cs ∧ digitsValue (n.whole ++ n.fraction.getD []) = c ∧
    exponentValue n.exponent - (n.fraction.getD []).length = e

/-- In positional notation the number of digits after the point gives the exponent. -/
theorem isMagnitude_positional (c : Nat) {e : Int} (he : e ≤ 0) :
    IsMagnitude c e (positional (Text.natChars c) e) := by
  unfold positional
  dsimp only
  split
  · next hplaces =>
    obtain ⟨d, ds, hplain, hvalue⟩ := exists_digits_of_natChars c
    refine ⟨⟨none, d :: ds, none, none, .inl (List.cons_ne_nil _ _), nofun⟩, ?_, ?_, ?_⟩
    · simpa [unsignedSymbols, fractionSymbols, exponentSymbols] using hplain
    · simpa using hvalue
    · rw [exponentValue, Option.getD_none, List.length_nil]
      omega
  · next hplaces =>
    obtain ⟨ds, hplain, hvalue⟩ :=
      exists_digits_of_padded ((-e).toNat + 1 - (Text.natChars c).length) c
    generalize hpadded : List.replicate ((-e).toNat + 1 - (Text.natChars c).length) '0' ++
      Text.natChars c = padded at hplain ⊢
    have hlong : (-e).toNat + 1 ≤ padded.length := by
      rw [← hpadded, List.length_append, List.length_replicate]
      omega
    have hlength : ds.length = padded.length := by
      rw [← hplain.length_eq, List.length_map]
    let k := padded.length - (-e).toNat
    have hwhole : ds.take k ≠ [] := by
      rw [← List.length_pos_iff, List.length_take]
      omega
    refine ⟨⟨none, ds.take k, some (ds.drop k), none, .inl hwhole, nofun⟩, ?_, ?_, ?_⟩
    · have hleft := List.forall₂_take k hplain
      have hright := List.forall₂_drop k hplain
      rw [← List.map_take] at hleft
      rw [← List.map_drop] at hright
      have hpoint : Symbol.point.IsPlain '.' := rfl
      rw [unsignedSymbols, exponentSymbols, List.append_nil]
      exact List.rel_append hleft (.cons hpoint hright)
    · simpa using hvalue
    · rw [exponentValue, Option.getD_some, List.length_drop]
      omega

theorem signed_natAbs (n : Int) : signed (decide (n < 0)) n.natAbs = n := by
  by_cases hneg : n < 0
  · rw [signed, if_pos (decide_eq_true hneg)]
    omega
  · rw [signed, if_neg (by simpa using hneg)]
    omega

/-- The exponent of scientific notation has the symbols of an exponent with a sign. -/
theorem exists_exponent (power : Int) :
    ∃ exponent, (∀ e ∈ exponent, e.2 ≠ []) ∧ exponentValue exponent = power ∧
      ArePlain (exponentSymbols exponent)
        ('E' :: (if power < 0 then '-' else '+') :: Text.natChars power.natAbs) := by
  obtain ⟨d, ds, hplain, hvalue⟩ := exists_digits_of_natChars power.natAbs
  refine ⟨some (some (decide (power < 0)), d :: ds), ?_, ?_, ?_⟩
  · intro e he
    obtain rfl := Option.some.inj he
    exact List.cons_ne_nil _ _
  · rw [exponentValue, hvalue]
    exact signed_natAbs power
  · have hsign : (Symbol.sign (decide (power < 0))).IsPlain (if power < 0 then '-' else '+') := by
      by_cases hneg : power < 0 <;> simp [Symbol.IsPlain, hneg]
    exact .cons (.inr rfl) (.cons hsign hplain)

/-- In scientific notation the power of ten is given for the first digit. -/
theorem isMagnitude_scientific (c : Nat) (e : Int) :
    IsMagnitude c e
      (scientific (Text.natChars c) (e + (Text.natChars c).length - 1)) := by
  obtain ⟨d, ds, hplain, hvalue⟩ := exists_digits_of_natChars c
  obtain ⟨exponent, hdigits, hpower, hexponent⟩ :=
    exists_exponent (e + (Text.natChars c).length - 1)
  obtain ⟨x, xs, hx, hxs, hchars⟩ := List.forall₂_cons_left_iff.mp hplain
  have hlength : (Text.natChars c).length = ds.length + 1 := by
    rw [hchars, List.length_cons, ← hxs.length_eq, List.length_map]
  rw [hlength] at hpower hexponent ⊢
  rw [scientific, hchars]
  rcases ds with _ | ⟨d', ds⟩
  · -- Without further digits there is no point.
    cases hxs
    refine ⟨⟨none, [d], none, exponent, .inl (List.cons_ne_nil _ _), hdigits⟩, ?_, ?_, ?_⟩
    · exact .cons hx hexponent
    · simpa using hvalue
    · rw [hpower]
      simp
  · obtain ⟨x', xs, -, -, rfl⟩ := List.forall₂_cons_left_iff.mp hxs
    refine ⟨⟨none, [d], some (d' :: ds), exponent, .inl (List.cons_ne_nil _ _), hdigits⟩,
      ?_, ?_, ?_⟩
    · have hpoint : Symbol.point.IsPlain '.' := rfl
      exact .cons hx (.cons hpoint (List.rel_append hxs hexponent))
    · simpa using hvalue
    · rw [hpower, Option.getD_some, List.length_cons]
      omega

/-- The digits of a finite number spell its coefficient and its exponent. -/
theorem isMagnitude_magnitudeText (c : Nat) (e : Int) : IsMagnitude c e (magnitudeText c e) := by
  unfold magnitudeText
  dsimp only
  split
  · next h => exact isMagnitude_positional c h.1
  · exact isMagnitude_scientific c e

-- ════════════════════════════════════════════════════════════════════════
-- Texts of numbers
-- ════════════════════════════════════════════════════════════════════════

/-- The text of a finite number spells a numeral of the number. -/
theorem exists_isSpelledBy_text (negative : Bool) (c : Nat) (e : Int) :
    ∃ n : Numeral, n.IsSpelledBy (text (.finite negative c e)).toList ∧
      n.toDecimal = .finite negative c e := by
  obtain ⟨n, hplain, hvalue, hexponent⟩ := isMagnitude_magnitudeText c e
  let sign : Option Bool := if negative then some true else none
  refine ⟨{ n with sign := sign }, isSpelledBy_of_isPlain ?_, ?_⟩
  · rw [text, String.toList_ofList]
    refine List.rel_append ?_ hplain
    cases negative with
    | false => exact .nil
    | true => exact .cons rfl .nil
  · have hsign : sign.getD false = negative := by cases negative <;> rfl
    simp only [toDecimal, hsign, hvalue, hexponent]

/-- A number in range is read back from its text. -/
theorem ofText?_text {negative : Bool} {c : Nat} {e : Int}
    (h : (Decimal.finite negative c e).isInRange = true) :
    ofText? (text (.finite negative c e)) = some (.finite negative c e) := by
  obtain ⟨n, hspelled, hn⟩ := exists_isSpelledBy_text negative c e
  rw [← hn] at h
  rw [ofText?_of_isSpelledBy hspelled h, hn]

/-- An integer as a number. -/
def ofInt (n : Int) : Decimal :=
  .finite (decide (n < 0)) n.natAbs 0

@[simp]
theorem value?_ofInt (n : Int) : (ofInt n).value? = some (n : ℚ) := by
  rw [ofInt, value?_finite, signed_natAbs, zpow_zero, mul_one]

/-- The text of an integer is its text as a number. -/
theorem text_ofInt (n : Int) : (ofInt n).text = Text.intText n := by
  have hlength : 0 < (Text.natChars n.natAbs).length :=
    List.length_pos_iff.mpr Nat.toDigits_ne_nil
  have hplain : magnitudeText n.natAbs 0 = Text.natChars n.natAbs := by
    unfold magnitudeText
    dsimp only
    rw [if_pos ⟨le_rfl, by omega⟩]
    rfl
  rw [ofInt, text, Text.intText, hplain]
  by_cases hneg : n < 0 <;> simp [hneg]

/-- An integer is read from its text. -/
theorem ofText?_intText {n : Int} (h : (ofInt n).isInRange = true) :
    ofText? (Text.intText n) = some (ofInt n) := by
  rw [← text_ofInt]
  exact ofText?_text h

end Decimal

end BlockDoc
