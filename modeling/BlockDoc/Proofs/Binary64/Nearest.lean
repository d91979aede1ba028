import BlockDoc.Proofs.Binary64.Rounding

/-!
# Rounding gives a nearest number

A rational number whose magnitude is below the bound is rounded to a finite number, and no other
finite number is nearer to it.

## Main definitions

* `Binary64.HasValue` — the values of the finite numbers
* `Binary64.IsNearest` — a finite number to which none is nearer

## Main results

* `Decimal.isNearest_toBinary64` — decimal numbers are rounded to a nearest number
-/

namespace BlockDoc

namespace Binary64

/-- A finite number, with a mantissa of at most 53 bits and an exponent in range, and its value. -/
def HasValue (x : Binary64) (v : ℚ) : Prop :=
  ∃ negative m q, x = .finite negative m q ∧ m < 2 * leastMantissa ∧ minExponent ≤ q ∧
    q ≤ maxExponent ∧ v = signed negative m * 2 ^ q

/-- A finite number such that no finite number is nearer to `r`. -/
def IsNearest (x : Binary64) (r : ℚ) : Prop :=
  ∃ v, x.HasValue v ∧ ∀ y w, HasValue y w → |r - v| ≤ |r - w|

-- ════════════════════════════════════════════════════════════════════════
-- Magnitudes
-- ════════════════════════════════════════════════════════════════════════

theorem IsRounded.abs_sub_le {r : ℚ} {m : Nat} (h : IsRounded r m) (k : Nat) :
    |r - m| ≤ |r - k| := by
  by_cases hk : k = m
  · rw [hk]
  · have hint : (1 : Int) ≤ |(m : Int) - k| := Int.one_le_abs (by omega)
    have hdist : (1 : ℚ) ≤ |(m : ℚ) - k| := by exact_mod_cast hint
    have hsum : |(m : ℚ) - k| ≤ |r - k| + |r - m| := by
      calc |(m : ℚ) - k| = |(r - k) - (r - m)| := by congr 1; ring
        _ ≤ |r - k| + |r - m| := abs_sub _ _
    linarith [h.near]

/-- Under a common unit, the nearest mantissa gives the nearest multiple. -/
theorem IsRounded.abs_sub_mul_le {r u : ℚ} (hu : 0 < u) {m : Nat} (h : IsRounded (r / u) m)
    (k : Nat) : |r - m * u| ≤ |r - k * u| := by
  have hscale : ∀ x : ℚ, |r - x * u| = |r / u - x| * u := by
    intro x
    rw [← abs_of_pos hu, ← abs_mul, abs_of_pos hu, sub_mul, div_mul_cancel₀ _ hu.ne']
  rw [hscale, hscale]
  exact mul_le_mul_of_nonneg_right (h.abs_sub_le k) hu.le

/-- No magnitude of a finite number is nearer than the one that rounding gives. -/
theorem IsExponent.abs_sub_le {r : ℚ} {q : Int} (hq : IsExponent r q) {m : Nat}
    (hm : IsRounded (r / 2 ^ q) m) {m' : Nat} {q' : Int} (hm' : m' < 2 * leastMantissa)
    (hq' : minExponent ≤ q') : |r - m * 2 ^ q| ≤ |r - m' * 2 ^ q'| := by
  have hu : (0 : ℚ) < 2 ^ q := zpow_pos two_pos _
  rcases le_or_gt q q' with hle | hlt
  · -- On a coarser grid the other number is a multiple of the same unit.
    obtain ⟨k, hk⟩ := Int.le.dest hle
    have hgrid : (m' : ℚ) * 2 ^ q' = (m' * 2 ^ k : Nat) * 2 ^ q := by
      rw [← hk, zpow_add₀ two_ne_zero, zpow_natCast]
      push_cast
      ring
    rw [hgrid]
    exact hm.abs_sub_mul_le hu _
  · -- On a finer grid the other number is below all numbers of the exponent.
    have hfull : (2 : ℚ) ^ 52 * 2 ^ q ≤ r := hq.full.resolve_left (by omega)
    have hbelow : (m' : ℚ) * 2 ^ q' ≤ 2 ^ 52 * 2 ^ q := by
      have hmantissa : (m' : ℚ) ≤ 2 ^ 53 := by
        rw [two_mul_leastMantissa] at hm'
        exact_mod_cast hm'.le
      have hpow : (2 : ℚ) ^ (q' + 1) ≤ 2 ^ q := zpow_le_zpow_right₀ one_le_two hlt
      rw [zpow_add_one₀ two_ne_zero] at hpow
      calc (m' : ℚ) * 2 ^ q' ≤ 2 ^ 53 * 2 ^ q' :=
            mul_le_mul_of_nonneg_right hmantissa (zpow_pos two_pos _).le
        _ = 2 ^ 52 * (2 ^ q' * 2) := by ring
        _ ≤ 2 ^ 52 * 2 ^ q := mul_le_mul_of_nonneg_left hpow (by norm_num)
    have hleast := hm.abs_sub_mul_le hu (2 ^ 52)
    rw [Nat.cast_pow, Nat.cast_two] at hleast
    rw [abs_of_nonneg (by linarith : 0 ≤ r - 2 ^ 52 * 2 ^ q)] at hleast
    rw [abs_of_nonneg (by linarith : 0 ≤ r - m' * 2 ^ q')]
    linarith

-- ════════════════════════════════════════════════════════════════════════
-- Signs
-- ════════════════════════════════════════════════════════════════════════

/-- A mantissa is rounded up to 53 bits and one at most. -/
theorem IsRounded.le_two_mul {r : ℚ} {m : Nat} (h : IsRounded r m) (hr : r < 2 ^ 53) :
    m ≤ 2 * leastMantissa := by
  obtain ⟨hlow, -⟩ := abs_le.mp h.near
  rw [two_mul_leastMantissa]
  have hlt : (m : ℚ) < (2 ^ 53 + 1 : Nat) := by
    push_cast
    linarith
  exact Nat.lt_succ_iff.mp (Nat.cast_lt.mp hlt)

/-- The number of a mantissa keeps its value if the mantissa has been rounded up to a bit more. -/
theorem hasValue_ofMantissa {negative : Bool} {m : Nat} {q : Int} (hm : m ≤ 2 * leastMantissa)
    (hq : minExponent ≤ q) (h : (ofMantissa negative m q).isFinite = true) :
    (ofMantissa negative m q).HasValue (signed negative m * 2 ^ q) := by
  rw [isFinite_ofMantissa_iff] at h
  by_cases htop : m = 2 * leastMantissa
  · have hlt : ¬maxExponent < q + 1 := by omega
    have hhalf : leastMantissa < 2 * leastMantissa := by decide
    refine ⟨negative, leastMantissa, q + 1, ?_, hhalf, by omega, by omega, ?_⟩
    · rw [ofMantissa, if_pos htop, if_neg hlt]
    · rw [htop, mul_comm 2, signed_mul, zpow_add_one₀ two_ne_zero]
      push_cast
      ring
  · have hlt : ¬maxExponent < q := by omega
    refine ⟨negative, m, q, ?_, by omega, hq, by omega, rfl⟩
    rw [ofMantissa, if_neg htop, if_neg hlt]

/-- No finite number is nearer than the one of the nearest magnitude with the sign of the number. -/
theorem abs_sub_signed_le {r u v : ℚ} {negative negative' : Bool} {m m' : Nat}
    (hr : negative = true ↔ r < 0) (hle : |(|r| - m * u)| ≤ |(|r| - m' * v)|) (hv : 0 < v) :
    |r - signed negative m * u| ≤ |r - signed negative' m' * v| := by
  have hsame : |r - signed negative m * u| = |(|r| - m * u)| := by
    cases negative with
    | false =>
      have hnonneg : 0 ≤ r := not_lt.mp fun h => nomatch hr.mpr h
      rw [abs_of_nonneg hnonneg]
      rfl
    | true =>
      have hneg : r < 0 := hr.mp rfl
      rw [abs_of_neg hneg, ← abs_neg]
      congr 1
      simp [signed]
      ring
  have hmagnitude : |(signed negative' m' : ℚ) * v| = m' * v := by
    rw [abs_mul, ← Int.cast_abs, Int.abs_eq_natAbs, natAbs_signed, Int.cast_natCast,
      abs_of_pos hv]
  calc |r - signed negative m * u| = |(|r| - m * u)| := hsame
    _ ≤ |(|r| - m' * v)| := hle
    _ = |(|r| - |(signed negative' m' : ℚ) * v|)| := by rw [hmagnitude]
    _ ≤ |r - signed negative' m' * v| := abs_abs_sub_abs_le _ _

theorem isNearest_ofRat {r : ℚ} (hr : r ≠ 0) (h : |r| < overflow) : (ofRat r).IsNearest r := by
  have hnum : r.num.natAbs ≠ 0 := by simpa using hr
  have hfinite := (isFinite_ofRatio_iff (decide (r < 0)) hnum r.den_ne_zero).mpr
    (Decimal.abs_eq_natAbs_div_den r ▸ h)
  obtain ⟨q, m, hq, hm, heq⟩ := exists_ofRatio_eq (decide (r < 0)) hnum r.den_ne_zero
  rw [← Decimal.abs_eq_natAbs_div_den] at hq hm
  have hunit : (0 : ℚ) < 2 ^ q := zpow_pos two_pos _
  have hbits : m ≤ 2 * leastMantissa := hm.le_two_mul ((div_lt_iff₀ hunit).mpr hq.lt)
  refine ⟨signed (decide (r < 0)) m * 2 ^ q, ?_, ?_⟩
  · rw [ofRat, heq]
    exact hasValue_ofMantissa hbits hq.least (heq ▸ hfinite)
  · rintro y w ⟨negative', m', q', -, hm', hq', -, rfl⟩
    exact abs_sub_signed_le decide_eq_true_iff (hq.abs_sub_le hm hm' hq') (zpow_pos two_pos _)

end Binary64

/-- A decimal number of a magnitude below the bound is rounded to a nearest number. -/
theorem Decimal.isNearest_toBinary64 {d : Decimal} {r : ℚ} (h : d.value? = some r) (hr : r ≠ 0)
    (hlt : |r| < Binary64.overflow) : d.toBinary64.IsNearest r := by
  rw [toBinary64_eq_ofRat h hr]
  exact Binary64.isNearest_ofRat hr hlt

end BlockDoc
