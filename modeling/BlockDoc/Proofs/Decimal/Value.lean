import BlockDoc.Decimal.Basic
import Mathlib.Algebra.Order.Field.Rat
import Mathlib.Data.Rat.Cast.Order
import Mathlib.Algebra.Order.Field.Power
import Mathlib.Tactic.NormNum
import Mathlib.Tactic.Positivity
import Mathlib.Tactic.FieldSimp

/-!
# The values of decimal numbers

A finite number stands for a rational number. Whether it is integral is decided on the coefficient
and the exponent alone, at any magnitude and without rounding, and with a test on the number of bits
that spares most powers of ten. The answer is the right one: a number gives an integer if and only
if its value is that integer.

## Main definitions

* `Decimal.value?` — the value of a finite number

## Main results

* `Decimal.toInt?_eq_some_iff` — a number gives the integer that is its value
-/

namespace BlockDoc

@[simp]
theorem signed_zero (negative : Bool) : signed negative 0 = 0 := by
  cases negative <;> rfl

theorem signed_mul (negative : Bool) (m k : Nat) :
    signed negative (m * k) = signed negative m * k := by
  cases negative <;> simp [signed]

@[simp]
theorem natAbs_signed (negative : Bool) (m : Nat) : (signed negative m).natAbs = m := by
  cases negative <;> simp [signed]

/-- An integer of which a positive multiple has a sign and a magnitude has that sign itself. -/
theorem signed_natAbs_of_mul_eq {negative : Bool} {c k : Nat} {n : Int} (hk : 0 < k)
    (h : signed negative c = n * k) : signed negative n.natAbs = n := by
  have hk' : (0 : Int) < k := Int.natCast_pos.mpr hk
  cases negative with
  | false =>
    have hn : 0 ≤ n := nonneg_of_mul_nonneg_left (h ▸ Int.natCast_nonneg c) hk'
    exact Int.natAbs_of_nonneg hn
  | true =>
    have hneg : 0 ≤ -n * (k : Int) := by
      rw [neg_mul, ← h]
      simp [signed]
    have hn : 0 ≤ -n := nonneg_of_mul_nonneg_left hneg hk'
    simp only [signed, if_true]
    omega

namespace Decimal

/-- The value of a finite number. -/
def value? : Decimal → Option ℚ
  | .finite negative c e => some ((signed negative c : ℚ) * 10 ^ e)
  | _ => none

@[simp]
theorem value?_finite (negative : Bool) (c : Nat) (e : Int) :
    value? (.finite negative c e) = some ((signed negative c : ℚ) * 10 ^ e) := rfl

@[simp]
theorem value?_infinite (negative : Bool) : value? (.infinite negative) = none := rfl

@[simp]
theorem value?_nan (negative signaling : Bool) (payload : Nat) :
    value? (.nan negative signaling payload) = none := rfl

/-- The finite numbers are those that have a value. -/
theorem isSome_value? (d : Decimal) : d.value?.isSome = d.isFinite := by
  cases d <;> rfl

theorem isFinite_of_value? {d : Decimal} {q : ℚ} (h : d.value? = some q) : d.isFinite = true := by
  rw [← isSome_value?, h]
  rfl

theorem isFinite_eq_false_of_value? {d : Decimal} (h : d.value? = none) : d.isFinite = false := by
  rw [← isSome_value?, h]
  rfl

/-- A number of fewer than `3 * k` bits is less than `10 ^ k`. -/
theorem lt_ten_pow_of_log2_lt {c k : Nat} (hc : c ≠ 0) (h : c.log2 < 3 * k) : c < 10 ^ k := by
  calc c < 2 ^ (3 * k) := (Nat.log2_lt hc).mp h
    _ = 8 ^ k := by rw [Nat.pow_mul]
    _ ≤ 10 ^ k := Nat.pow_le_pow_left (by decide) k

theorem divPow?_eq_some_iff {c k m : Nat} : divPow? c k = some m ↔ m * 10 ^ k = c := by
  have hpow : 0 < 10 ^ k := Nat.pow_pos (by decide)
  have hcast : Nat.pow 10 k = 10 ^ k := rfl
  unfold divPow?
  rw [hcast]
  split
  · next hc =>
    subst hc
    simp [eq_comm]
  · next hc =>
    split
    · next hbits =>
      have hlt := lt_ten_pow_of_log2_lt hc hbits
      refine ⟨nofun, fun h => ?_⟩
      have hm : m ≠ 0 := by
        rintro rfl
        exact hc (by simpa using h.symm)
      have hle : 10 ^ k ≤ c := h ▸ Nat.le_mul_of_pos_left _ (Nat.pos_of_ne_zero hm)
      omega
    · split
      · next hmod =>
        rw [Option.some.injEq, Nat.div_eq_iff_eq_mul_left hpow (Nat.dvd_of_mod_eq_zero hmod),
          eq_comm]
      · next hmod =>
        refine ⟨nofun, fun h => absurd ?_ hmod⟩
        rw [← h, Nat.mul_mod_left]

theorem ten_zpow_of_nonneg {e : Int} (he : 0 ≤ e) : (10 : ℚ) ^ e = (10 ^ e.toNat : Nat) := by
  obtain ⟨k, rfl⟩ := Int.eq_ofNat_of_zero_le he
  simp

theorem ten_zpow_of_neg {e : Int} (he : e < 0) :
    (10 : ℚ) ^ e = ((10 ^ (-e).toNat : Nat) : ℚ)⁻¹ := by
  have hnonneg : 0 ≤ -e := by omega
  rw [← ten_zpow_of_nonneg hnonneg, zpow_neg, inv_inv]

theorem toInt?_finite_of_nonneg (negative : Bool) (c : Nat) {e : Int} (he : 0 ≤ e) :
    toInt? (.finite negative c e) = some (signed negative (c * 10 ^ e.toNat)) := by
  have hcoefficient : (if c = 0 then 0 else c * Nat.pow 10 e.toNat) = c * 10 ^ e.toNat := by
    split
    · next hc => rw [hc, Nat.zero_mul]
    · rfl
  simp only [toInt?, if_pos he, hcoefficient]

theorem toInt?_finite_of_neg (negative : Bool) (c : Nat) {e : Int} (he : e < 0) :
    toInt? (.finite negative c e) = (divPow? c (-e).toNat).map (signed negative) := by
  simp only [toInt?, if_neg (Int.not_le.mpr he)]

/-- A number gives an integer if and only if its value is that integer. -/
theorem toInt?_eq_some_iff {d : Decimal} {n : Int} :
    d.toInt? = some n ↔ d.value? = some (n : ℚ) := by
  cases d with
  | infinite negative => simp [toInt?]
  | nan negative signaling payload => simp [toInt?]
  | finite negative c e =>
    rw [value?_finite, Option.some.injEq]
    rcases lt_or_ge e 0 with he | he
    · have hpow : 0 < 10 ^ (-e).toNat := Nat.pow_pos (by decide)
      have hvalue : (signed negative c : ℚ) * 10 ^ e = n ↔
          signed negative c = n * (10 ^ (-e).toNat : Nat) := by
        have hne : ((10 ^ (-e).toNat : Nat) : ℚ) ≠ 0 := Nat.cast_ne_zero.mpr hpow.ne'
        rw [ten_zpow_of_neg he, ← div_eq_mul_inv, div_eq_iff hne]
        exact_mod_cast Iff.rfl
      rw [toInt?_finite_of_neg negative c he, hvalue, Option.map_eq_some_iff]
      constructor
      · rintro ⟨m, hm, rfl⟩
        rw [← divPow?_eq_some_iff.mp hm, signed_mul]
      · intro h
        refine ⟨n.natAbs, divPow?_eq_some_iff.mpr ?_, signed_natAbs_of_mul_eq hpow h⟩
        rw [← natAbs_signed negative c, h, Int.natAbs_mul, Int.natAbs_natCast]
    · rw [toInt?_finite_of_nonneg negative c he, Option.some.injEq, signed_mul,
        ten_zpow_of_nonneg he]
      exact_mod_cast Iff.rfl

/-- A number gives no integer if and only if it has no value that is one. -/
theorem toInt?_eq_none_iff {d : Decimal} {q : ℚ} (h : d.value? = some q) :
    d.toInt? = none ↔ ∀ n : Int, q ≠ n := by
  rw [Option.eq_none_iff_forall_ne_some]
  simp only [ne_eq, toInt?_eq_some_iff, h, Option.some.injEq]

end Decimal

end BlockDoc
