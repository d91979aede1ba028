import BlockDoc.Proofs.Decimal.Value
import BlockDoc.Binary64.Basic
import Mathlib.Algebra.Order.Ring.Abs
import Mathlib.Data.Rat.Floor
import Mathlib.Tactic.Linarith
import Mathlib.Tactic.Ring

/-!
# Rounding to floating-point numbers

A quotient is rounded in two steps: an exponent is chosen under which the mantissa has 53 bits, and
the quotient in units of that power of two is rounded to the nearest natural number. Both steps are
determined by the value of the quotient, so fractions of one value are rounded alike, and so are
decimal numbers, whatever their coefficients and exponents are. The shortcuts for very large and
very small decimal numbers give what rounding gives.

## Main definitions

* `Binary64.IsRounded` — the natural number nearest to a rational number
* `Binary64.IsExponent` — the exponent under which a number is rounded
* `Binary64.ofRat` — the number nearest to a rational number
* `Binary64.overflow` — the least magnitude that is rounded to infinity

## Main results

* `Binary64.ofRatio_congr` — rounding depends on the value of a quotient only
* `Decimal.toBinary64_eq_ofRat` — decimal numbers are rounded by their values
* `Decimal.isFinite_toBinary64_iff` — which decimal numbers are not rounded to infinity
-/

namespace BlockDoc

namespace Binary64

-- ════════════════════════════════════════════════════════════════════════
-- The nearest natural number
-- ════════════════════════════════════════════════════════════════════════

/-- A natural number is nearest to `r`, and even if another one is equally near. -/
structure IsRounded (r : ℚ) (m : Nat) : Prop where
  near : |r - m| ≤ 1 / 2
  even : |r - m| = 1 / 2 → m % 2 = 0

theorem IsRounded.unique {r : ℚ} {m m' : Nat} (h : IsRounded r m) (h' : IsRounded r m') :
    m = m' := by
  have hdist : |(m : ℚ) - m'| ≤ 1 := by
    calc |(m : ℚ) - m'| = |(r - m') - (r - m)| := by congr 1; ring
      _ ≤ |r - m'| + |r - m| := abs_sub _ _
      _ ≤ 1 := by linarith [h.near, h'.near]
  have hint : |(m : Int) - m'| ≤ 1 := by exact_mod_cast hdist
  rw [abs_le] at hint
  by_contra hne
  -- Of two different candidates each is half a unit away, and both are even.
  have hfar : |(m : ℚ) - m'| = 1 := by
    rcases lt_or_gt_of_ne hne with hlt | hlt
    · have hm : m' = m + 1 := by omega
      rw [hm]
      norm_num
    · have hm : m = m' + 1 := by omega
      rw [hm]
      norm_num
  have hsum : 1 ≤ |r - m'| + |r - m| := by
    calc 1 = |(r - m') - (r - m)| := by rw [← hfar]; congr 1; ring
      _ ≤ |r - m'| + |r - m| := abs_sub _ _
  have heven := h.even (by linarith [h.near, h'.near])
  have heven' := h'.even (by linarith [h.near, h'.near])
  omega

/-- A quotient of natural numbers is rounded to the nearest one. -/
theorem isRounded_roundDiv (n : Nat) {d : Nat} (hd : 0 < d) :
    IsRounded ((n : ℚ) / d) (roundDiv n d) := by
  have hd' : (0 : ℚ) < d := Nat.cast_pos.mpr hd
  have hsplit : (n : ℚ) / d = (n / d : Nat) + ((n % d : Nat) : ℚ) / d := by
    rw [div_eq_iff hd'.ne', add_mul, div_mul_cancel₀ _ hd'.ne']
    exact_mod_cast (Nat.div_add_mod' n d).symm
  have hnonneg : 0 ≤ ((n % d : Nat) : ℚ) / d := by positivity
  have hlt : ((n % d : Nat) : ℚ) / d < 1 :=
    (div_lt_one hd').mpr (Nat.cast_lt.mpr (Nat.mod_lt n hd))
  -- The excess is compared with one half by comparing its double with the divisor.
  have hhalf : ((n % d : Nat) : ℚ) / d < 1 / 2 ↔ 2 * (n % d) < d := by
    rw [div_lt_div_iff₀ hd' two_pos, one_mul, mul_comm]
    exact_mod_cast Iff.rfl
  have hhalf' : 1 / 2 < ((n % d : Nat) : ℚ) / d ↔ d < 2 * (n % d) := by
    rw [div_lt_div_iff₀ two_pos hd', one_mul, mul_comm]
    exact_mod_cast Iff.rfl
  rw [hsplit]
  generalize ((n % d : Nat) : ℚ) / d = x at *
  simp only [roundDiv]
  split
  · next h =>
    have hx := hhalf.mpr h
    have habs : |((n / d : Nat) : ℚ) + x - (n / d : Nat)| = x := by
      rw [add_sub_cancel_left, abs_of_nonneg hnonneg]
    exact ⟨by linarith, fun he => by linarith⟩
  · next h =>
    split
    · next h' =>
      have hx := hhalf'.mpr h'
      have habs : |((n / d : Nat) : ℚ) + x - (n / d + 1 : Nat)| = 1 - x := by
        rw [Nat.cast_add_one, add_sub_add_left_eq_sub, abs_of_nonpos (by linarith), neg_sub]
      exact ⟨by linarith, fun he => by linarith⟩
    · next h' =>
      have hx : x = 1 / 2 := by
        have := mt hhalf.mp h
        have := mt hhalf'.mp h'
        linarith
      subst hx
      split
      · next heven => exact ⟨by norm_num, fun _ => heven⟩
      · next hodd => exact ⟨by norm_num [abs_of_neg], fun _ => by omega⟩

-- ════════════════════════════════════════════════════════════════════════
-- The exponent
-- ════════════════════════════════════════════════════════════════════════

/-- The exponent under which `r` has a mantissa of 53 bits, or the least exponent if that is
larger. -/
structure IsExponent (r : ℚ) (q : Int) : Prop where
  least : minExponent ≤ q
  lt : r < 2 ^ 53 * 2 ^ q
  full : q = minExponent ∨ 2 ^ 52 * 2 ^ q ≤ r

theorem IsExponent.le {r : ℚ} {q q' : Int} (h : IsExponent r q) (h' : IsExponent r q') :
    q ≤ q' := by
  by_contra hlt
  have hfull : (2 : ℚ) ^ 52 * 2 ^ q ≤ r := by
    rcases h.full with heq | hfull
    · have := h'.least
      omega
    · exact hfull
  have hpow : (2 : ℚ) ^ (q' + 1) ≤ 2 ^ q := zpow_le_zpow_right₀ one_le_two (by omega)
  rw [zpow_add_one₀ two_ne_zero] at hpow
  have := h'.lt
  linarith

theorem IsExponent.unique {r : ℚ} {q q' : Int} (h : IsExponent r q) (h' : IsExponent r q') :
    q = q' :=
  le_antisymm (h.le h') (h'.le h)

/-- The exponent that gives 53 bits counts unless it is less than the least one. -/
theorem isExponent_max {r : ℚ} {e : Int} (hfull : 2 ^ 52 * 2 ^ e ≤ r) (hlt : r < 2 ^ 53 * 2 ^ e) :
    IsExponent r (max minExponent e) := by
  refine ⟨le_max_left _ _, ?_, ?_⟩
  · calc r < 2 ^ 53 * 2 ^ e := hlt
      _ ≤ 2 ^ 53 * 2 ^ max minExponent e :=
        mul_le_mul_of_nonneg_left (zpow_le_zpow_right₀ one_le_two (le_max_right _ _)) (by norm_num)
  · rcases le_total e minExponent with h | h
    · exact .inl (max_eq_left h)
    · exact .inr (by rwa [max_eq_right h])

theorem two_mul_leastMantissa : 2 * leastMantissa = 2 ^ 53 := by decide

theorem scale_pos (n : Nat) {d : Nat} (hd : 0 < d) (q : Int) : 0 < (scale n d q).2 := by
  unfold scale
  split
  · exact Nat.mul_pos hd (Nat.pow_pos two_pos)
  · exact hd

/-- Scaling divides by a power of two. -/
theorem scale_div (n d : Nat) (q : Int) :
    ((scale n d q).1 : ℚ) / (scale n d q).2 = n / d / 2 ^ q := by
  unfold scale
  split
  · next hq =>
    obtain ⟨k, rfl⟩ := Int.eq_ofNat_of_zero_le hq
    simp [div_div]
  · next hq =>
    obtain ⟨k, hk⟩ := Int.eq_ofNat_of_zero_le (by omega : 0 ≤ -q)
    obtain rfl : q = -k := by omega
    simp [div_eq_mul_inv, mul_right_comm]

/-- The bits of two positive numbers give their quotient up to a factor of two on either side. -/
theorem div_bounds {n d : Nat} (hn : n ≠ 0) (hd : d ≠ 0) :
    (2 : ℚ) ^ 52 * 2 ^ ((n.log2 : Int) - d.log2 - 53) ≤ n / d ∧
      (n : ℚ) / d < 2 ^ 54 * 2 ^ ((n.log2 : Int) - d.log2 - 53) := by
  have hd' : (0 : ℚ) < d := Nat.cast_pos.mpr (Nat.pos_of_ne_zero hd)
  have hnlow : (2 : ℚ) ^ n.log2 ≤ n := by exact_mod_cast Nat.log2_self_le hn
  have hnhigh : (n : ℚ) < 2 ^ (n.log2 + 1) := by exact_mod_cast Nat.lt_log2_self
  have hdlow : (2 : ℚ) ^ d.log2 ≤ d := by exact_mod_cast Nat.log2_self_le hd
  have hdhigh : (d : ℚ) < 2 ^ (d.log2 + 1) := by exact_mod_cast Nat.lt_log2_self
  have hunit : (2 : ℚ) ^ ((n.log2 : Int) - d.log2 - 53) * 2 ^ d.log2 * 2 ^ 53 = 2 ^ n.log2 := by
    rw [← zpow_natCast, ← zpow_natCast, ← zpow_natCast, ← zpow_add₀ two_ne_zero,
      ← zpow_add₀ two_ne_zero]
    congr 1
    push_cast
    ring
  have hpos : (0 : ℚ) < 2 ^ ((n.log2 : Int) - d.log2 - 53) := zpow_pos two_pos _
  generalize (2 : ℚ) ^ ((n.log2 : Int) - d.log2 - 53) = u at *
  rw [pow_succ] at hnhigh hdhigh
  constructor
  · rw [le_div_iff₀ hd']
    nlinarith
  · rw [div_lt_iff₀ hd']
    nlinarith

theorem isExponent_exponentOf {n d : Nat} (hn : n ≠ 0) (hd : d ≠ 0) :
    IsExponent ((n : ℚ) / d) (exponentOf n d) := by
  obtain ⟨hlow, hhigh⟩ := div_bounds hn hd
  have hscale := scale_div n d ((n.log2 : Int) - d.log2 - 53)
  have hpos := scale_pos n (Nat.pos_of_ne_zero hd) ((n.log2 : Int) - d.log2 - 53)
  unfold exponentOf
  simp only
  generalize (n.log2 : Int) - d.log2 - 53 = low at *
  have hu : (0 : ℚ) < 2 ^ low := zpow_pos two_pos _
  -- The test on the scaled quotient compares it with the least mantissa of one bit more.
  have htest : (scale n d low).1 / (scale n d low).2 < 2 * leastMantissa ↔
      (n : ℚ) / d < 2 ^ 53 * 2 ^ low := by
    rw [Nat.div_lt_iff_lt_mul hpos, ← div_lt_iff₀ hu, ← hscale,
      div_lt_iff₀ (Nat.cast_pos.mpr hpos)]
    rw [two_mul_leastMantissa]
    exact_mod_cast Iff.rfl
  split
  · next h => exact isExponent_max hlow (htest.mp h)
  · next h =>
    have hge : 2 ^ 53 * 2 ^ low ≤ (n : ℚ) / d := not_lt.mp (mt htest.mpr h)
    apply isExponent_max <;> rw [zpow_add_one₀ two_ne_zero]
    · linarith
    · linarith

-- ════════════════════════════════════════════════════════════════════════
-- Quotients
-- ════════════════════════════════════════════════════════════════════════

/-- The number of a mantissa of at most 53 bits, or of one that has been rounded up to a bit
more. -/
def ofMantissa (negative : Bool) (m : Nat) (q : Int) : Binary64 :=
  if m = 2 * leastMantissa then
    if maxExponent < q + 1 then .infinite negative else .finite negative leastMantissa (q + 1)
  else if maxExponent < q then .infinite negative
  else .finite negative m q

/-- A positive quotient is rounded under its exponent. -/
theorem exists_ofRatio_eq (negative : Bool) {n d : Nat} (hn : n ≠ 0) (hd : d ≠ 0) :
    ∃ q m, IsExponent ((n : ℚ) / d) q ∧ IsRounded ((n : ℚ) / d / 2 ^ q) m ∧
      ofRatio negative n d = ofMantissa negative m q := by
  let q := exponentOf n d
  refine ⟨q, roundDiv (scale n d q).1 (scale n d q).2, isExponent_exponentOf hn hd, ?_, ?_⟩
  · rw [← scale_div]
    exact isRounded_roundDiv _ (scale_pos n (Nat.pos_of_ne_zero hd) q)
  · simp only [ofRatio, if_neg hn, ofMantissa]
    split <;> rfl

/-- Rounding depends on the value of a quotient only. -/
theorem ofRatio_congr (negative : Bool) {n d n' d' : Nat} (hd : d ≠ 0) (hd' : d' ≠ 0)
    (h : (n : ℚ) / d = n' / d') : ofRatio negative n d = ofRatio negative n' d' := by
  have hzero : n = 0 ↔ n' = 0 := by
    have hleft : (n : ℚ) / d = 0 ↔ n = 0 := by simp [hd]
    have hright : (n' : ℚ) / d' = 0 ↔ n' = 0 := by simp [hd']
    rw [← hleft, h, hright]
  by_cases hn : n = 0
  · rw [ofRatio, ofRatio, if_pos hn, if_pos (hzero.mp hn)]
  · obtain ⟨q, m, hq, hm, heq⟩ := exists_ofRatio_eq negative hn hd
    obtain ⟨q', m', hq', hm', heq'⟩ := exists_ofRatio_eq negative (mt hzero.mpr hn) hd'
    rw [← h] at hq' hm'
    obtain rfl := hq.unique hq'
    obtain rfl := hm.unique hm'
    rw [heq, heq']

-- ════════════════════════════════════════════════════════════════════════
-- Overflow
-- ════════════════════════════════════════════════════════════════════════

/-- The least magnitude that is rounded to infinity: half a unit of the last place above the largest
number. -/
def overflow : ℚ := 2 ^ 1024 - 2 ^ 970

/-- In units of the last place of the largest numbers, half a unit below the first mantissa of one
bit more. -/
theorem overflow_eq : overflow = (2 ^ 53 - 1 / 2) * 2 ^ maxExponent := by
  have hlarge : (2 : ℚ) ^ 1024 = 2 ^ 54 * 2 ^ 970 := by rw [← pow_add]
  have hunit : (2 : ℚ) ^ maxExponent = 2 * 2 ^ 970 := by
    rw [← pow_succ', ← zpow_natCast]
    rfl
  rw [overflow, hlarge, hunit]
  generalize (2 : ℚ) ^ 970 = u
  ring

theorem overflow_pos : 0 < overflow :=
  sub_pos.mpr (pow_lt_pow_right₀ one_lt_two (by decide))

theorem isFinite_ofMantissa_iff (negative : Bool) (m : Nat) (q : Int) :
    (ofMantissa negative m q).isFinite = true ↔
      q < maxExponent ∨ (q = maxExponent ∧ m ≠ 2 * leastMantissa) := by
  by_cases hm : m = 2 * leastMantissa
  · by_cases hq : maxExponent < q + 1
    · simp only [ofMantissa, if_pos hm, if_pos hq, isFinite]
      simp
      omega
    · simp only [ofMantissa, if_pos hm, if_neg hq, isFinite, true_iff]
      omega
  · by_cases hq : maxExponent < q
    · simp only [ofMantissa, if_neg hm, if_pos hq, isFinite]
      simp
      omega
    · simp only [ofMantissa, if_neg hm, if_neg hq, isFinite, true_iff]
      omega

/-- A number that is not finite is the infinity of its sign. -/
theorem ofMantissa_eq_infinite {negative : Bool} {m : Nat} {q : Int}
    (h : ¬(ofMantissa negative m q).isFinite = true) :
    ofMantissa negative m q = .infinite negative := by
  by_cases hm : m = 2 * leastMantissa
  · rw [ofMantissa, if_pos hm] at h ⊢
    split at h
    · next hq => exact if_pos hq
    · exact absurd rfl h
  · rw [ofMantissa, if_neg hm] at h ⊢
    split at h
    · next hq => exact if_pos hq
    · exact absurd rfl h

/-- Under the largest exponent, a number is rounded up to one bit more from half a unit below it. -/
theorem eq_of_isRounded_top {r : ℚ} {m : Nat} (hlt : r < 2 ^ 53) (hm : IsRounded r m) :
    m = 2 * leastMantissa ↔ 2 ^ 53 - 1 / 2 ≤ r := by
  obtain ⟨hlow, hhigh⟩ := abs_le.mp hm.near
  rw [two_mul_leastMantissa]
  constructor
  · rintro rfl
    push_cast at hlow
    linarith
  · intro hr
    have hle : (m : ℚ) < (2 ^ 53 + 1 : Nat) := by
      push_cast
      linarith
    have hge : ((2 ^ 53 - 1 : Nat) : ℚ) ≤ m := by
      push_cast [Nat.cast_sub]
      linarith
    have hle' : m < 2 ^ 53 + 1 := Nat.cast_lt.mp hle
    have hge' : 2 ^ 53 - 1 ≤ m := Nat.cast_le.mp hge
    by_contra hne
    obtain rfl : m = 2 ^ 53 - 1 := by omega
    have htie : |r - (2 ^ 53 - 1 : Nat)| = 1 / 2 := by
      refine le_antisymm hm.near ?_
      rw [abs_of_nonneg] <;> push_cast [Nat.cast_sub] <;> linarith
    exact absurd (hm.even htie) (by decide)

/-- A quotient is rounded to a finite number if and only if it is less than the bound. -/
theorem isFinite_ofRatio_iff (negative : Bool) {n d : Nat} (hn : n ≠ 0) (hd : d ≠ 0) :
    (ofRatio negative n d).isFinite = true ↔ (n : ℚ) / d < overflow := by
  obtain ⟨q, m, hq, hm, heq⟩ := exists_ofRatio_eq negative hn hd
  rw [heq, isFinite_ofMantissa_iff, overflow_eq]
  generalize (n : ℚ) / d = r at *
  have hpow : (0 : ℚ) < 2 ^ q := zpow_pos two_pos _
  rcases lt_trichotomy q maxExponent with hlt | rfl | hgt
  · have hle : (2 : ℚ) ^ (q + 1) ≤ 2 ^ maxExponent := zpow_le_zpow_right₀ one_le_two (by omega)
    rw [zpow_add_one₀ two_ne_zero] at hle
    have hr : r < (2 ^ 53 - 1 / 2) * 2 ^ maxExponent := by linarith [hq.lt]
    exact iff_of_true (.inl hlt) hr
  · have htop := eq_of_isRounded_top ((div_lt_iff₀ hpow).mpr hq.lt) hm
    rw [le_div_iff₀ hpow] at htop
    rw [← not_le (a := (2 ^ 53 - 1 / 2) * 2 ^ maxExponent), ← htop]
    simp
  · have hfull : (2 : ℚ) ^ 52 * 2 ^ q ≤ r := by
      refine hq.full.resolve_left fun h => ?_
      rw [h] at hgt
      exact absurd hgt (by decide)
    have hle : (2 : ℚ) ^ (maxExponent + 1) ≤ 2 ^ q := zpow_le_zpow_right₀ one_le_two hgt
    rw [zpow_add_one₀ two_ne_zero] at hle
    have hbig : (0 : ℚ) < 2 ^ maxExponent := zpow_pos two_pos _
    have hr : ¬r < (2 ^ 53 - 1 / 2) * 2 ^ maxExponent := by
      rw [not_lt]
      linarith
    refine iff_of_false ?_ hr
    omega

theorem ofRatio_eq_infinite {negative : Bool} {n d : Nat} (hd : d ≠ 0)
    (h : overflow ≤ (n : ℚ) / d) : ofRatio negative n d = .infinite negative := by
  have hn : n ≠ 0 := by
    rintro rfl
    rw [Nat.cast_zero, zero_div] at h
    exact absurd overflow_pos (not_lt.mpr h)
  have hfinite := mt (isFinite_ofRatio_iff negative hn hd).mp (not_lt.mpr h)
  obtain ⟨q, m, -, -, heq⟩ := exists_ofRatio_eq negative hn hd
  rw [heq] at hfinite ⊢
  exact ofMantissa_eq_infinite hfinite

-- ════════════════════════════════════════════════════════════════════════
-- Decimal numbers
-- ════════════════════════════════════════════════════════════════════════

/-- The number nearest to a rational number. -/
def ofRat (r : ℚ) : Binary64 :=
  ofRatio (decide (r < 0)) r.num.natAbs r.den

/-- A decimal number above all powers of ten that are tried is above the bound. -/
theorem overflow_le_of_large {c : Nat} (hc : c ≠ 0) {e : Int} (he : 400 < e) :
    overflow ≤ (c : ℚ) * 10 ^ e := by
  have hone : (1 : ℚ) ≤ c := by exact_mod_cast Nat.one_le_iff_ne_zero.mpr hc
  have hbits : (2 : Nat) ^ 1024 ≤ 10 ^ 401 := by decide +kernel
  have hpos : (0 : ℚ) < 10 ^ e := zpow_pos (by norm_num) _
  calc overflow ≤ 2 ^ 1024 := sub_le_self _ (by positivity)
    _ ≤ 10 ^ 401 := by exact_mod_cast hbits
    _ = 10 ^ (401 : Int) := (zpow_natCast 10 401).symm
    _ ≤ 10 ^ e := zpow_le_zpow_right₀ (by norm_num) (by omega)
    _ ≤ c * 10 ^ e := le_mul_of_one_le_left hpos.le hone

/-- A decimal number of so few bits is below half of the least positive number. -/
theorem lt_of_small {c k : Nat} (h : c.log2 + 1081 ≤ 3 * k) :
    (c : ℚ) / (10 ^ k : Nat) < 2 ^ minExponent / 2 := by
  have hbits : (c : ℚ) < 2 ^ (c.log2 + 1) := by exact_mod_cast Nat.lt_log2_self
  have hpow : (2 : ℚ) ^ (3 * k) ≤ (10 ^ k : Nat) := by
    rw [pow_mul]
    push_cast
    exact pow_le_pow_left₀ (by norm_num) (by norm_num) k
  have hexponent : ((c.log2 + 1 : Nat) : Int) - (3 * k : Nat) ≤ minExponent - 1 := by
    have hleast : minExponent = -1074 := rfl
    omega
  calc (c : ℚ) / (10 ^ k : Nat) ≤ c / 2 ^ (3 * k) :=
        div_le_div_of_nonneg_left (Nat.cast_nonneg c) (by positivity) hpow
    _ < 2 ^ (c.log2 + 1) / 2 ^ (3 * k) := div_lt_div_of_pos_right hbits (by positivity)
    _ = 2 ^ (((c.log2 + 1 : Nat) : Int) - (3 * k : Nat)) := by
        rw [zpow_sub₀ two_ne_zero, zpow_natCast, zpow_natCast]
    _ ≤ 2 ^ (minExponent - 1) := zpow_le_zpow_right₀ one_le_two hexponent
    _ = 2 ^ minExponent / 2 := by rw [zpow_sub_one₀ two_ne_zero, div_eq_mul_inv]

/-- A quotient below half of the least positive number is rounded to zero. -/
theorem ofRatio_eq_zero (negative : Bool) {n d : Nat} (hn : n ≠ 0) (hd : d ≠ 0)
    (h : (n : ℚ) / d < 2 ^ minExponent / 2) : ofRatio negative n d = zero negative := by
  obtain ⟨q, m, hq, hm, heq⟩ := exists_ofRatio_eq negative hn hd
  have hunit : (0 : ℚ) < 2 ^ minExponent := zpow_pos two_pos _
  have hleast : IsExponent ((n : ℚ) / d) minExponent := ⟨le_rfl, by linarith, .inl rfl⟩
  obtain rfl := hq.unique hleast
  have hhalf : (n : ℚ) / d / 2 ^ minExponent < 1 / 2 := by
    rw [div_lt_iff₀ hunit]
    linarith
  have hnonneg : 0 ≤ (n : ℚ) / d / 2 ^ minExponent := by positivity
  have hzero : IsRounded ((n : ℚ) / d / 2 ^ minExponent) 0 := by
    constructor <;> rw [Nat.cast_zero, sub_zero, abs_of_nonneg hnonneg]
    · exact hhalf.le
    · exact fun h => absurd h hhalf.ne
  obtain rfl := hm.unique hzero
  exact heq

/-- A positive decimal number is rounded like any quotient of its value. -/
theorem ofScientific_eq_ofRatio (negative : Bool) {c n d : Nat} {e : Int} (hc : c ≠ 0) (hd : d ≠ 0)
    (h : (c : ℚ) * 10 ^ e = n / d) : ofScientific negative c e = ofRatio negative n d := by
  have hcast : ∀ k : Nat, Nat.pow 10 k = 10 ^ k := fun _ => rfl
  have hn : n ≠ 0 := by
    rintro rfl
    have hpos : (0 : ℚ) < c * 10 ^ e :=
      mul_pos (Nat.cast_pos.mpr (Nat.pos_of_ne_zero hc)) (zpow_pos (by norm_num) _)
    rw [h, Nat.cast_zero, zero_div] at hpos
    exact lt_irrefl _ hpos
  unfold ofScientific
  rw [if_neg hc]
  split
  · next he =>
    split
    · next hlarge => rw [ofRatio_eq_infinite hd (h ▸ overflow_le_of_large hc hlarge)]
    · refine ofRatio_congr negative one_ne_zero hd ?_
      rw [← h, Decimal.ten_zpow_of_nonneg he, hcast]
      push_cast
      ring
  · next he =>
    have hneg : e < 0 := Int.not_le.mp he
    have hvalue : (c : ℚ) * 10 ^ e = c / (10 ^ (-e).toNat : Nat) := by
      rw [Decimal.ten_zpow_of_neg hneg, div_eq_mul_inv]
    have hpow : 10 ^ (-e).toNat ≠ 0 := (Nat.pow_pos (by decide)).ne'
    dsimp only
    split
    · next hsmall => rw [ofRatio_eq_zero negative hn hd (h ▸ hvalue ▸ lt_of_small hsmall)]
    · rw [hcast]
      exact ofRatio_congr negative hpow hd (hvalue ▸ h)

end Binary64

namespace Decimal

/-- The magnitude of a value does not depend on the sign. -/
theorem abs_signed_mul (negative : Bool) (c : Nat) (e : Int) :
    |(signed negative c : ℚ) * 10 ^ e| = c * 10 ^ e := by
  have hpow : (0 : ℚ) < 10 ^ e := zpow_pos (by norm_num) _
  have hsigned : |(signed negative c : ℚ)| = c := by
    rw [← Int.cast_abs, Int.abs_eq_natAbs, natAbs_signed, Int.cast_natCast]
  rw [abs_mul, hsigned, abs_of_pos hpow]

/-- Of a number other than zero the value tells the sign. -/
theorem signed_mul_neg_iff (negative : Bool) {c : Nat} (hc : c ≠ 0) (e : Int) :
    (signed negative c : ℚ) * 10 ^ e < 0 ↔ negative = true := by
  have hpow : (0 : ℚ) < 10 ^ e := zpow_pos (by norm_num) _
  have hpos : (0 : ℚ) < c := Nat.cast_pos.mpr (Nat.pos_of_ne_zero hc)
  rw [← not_le, mul_nonneg_iff_of_pos_right hpow, not_le]
  cases negative with
  | false => simp [signed]
  | true => simp [signed, hpos]

theorem abs_eq_natAbs_div_den (q : ℚ) : |q| = (q.num.natAbs : ℚ) / q.den := by
  rw [Rat.abs_def, Rat.divInt_eq_div, Int.cast_natCast, Int.cast_natCast]

/-- A decimal number other than zero is rounded by its value. -/
theorem toBinary64_eq_ofRat {d : Decimal} {q : ℚ} (h : d.value? = some q) (hq : q ≠ 0) :
    d.toBinary64 = Binary64.ofRat q := by
  cases d with
  | infinite negative => cases h
  | nan negative signaling payload => cases h
  | finite negative c e =>
    obtain rfl := Option.some.inj h
    have hc : c ≠ 0 := by
      rintro rfl
      simp at hq
    have hsign : decide ((signed negative c : ℚ) * 10 ^ e < 0) = negative := by
      rw [Bool.eq_iff_iff, decide_eq_true_iff]
      exact signed_mul_neg_iff negative hc e
    rw [Binary64.ofRat, hsign]
    refine Binary64.ofScientific_eq_ofRatio negative hc (Rat.den_ne_zero _) ?_
    rw [← abs_eq_natAbs_div_den, abs_signed_mul]

/-- Numbers of one value other than zero are rounded alike. -/
theorem toBinary64_congr {d d' : Decimal} {q : ℚ} (h : d.value? = some q) (h' : d'.value? = some q)
    (hq : q ≠ 0) : d.toBinary64 = d'.toBinary64 := by
  rw [toBinary64_eq_ofRat h hq, toBinary64_eq_ofRat h' hq]

/-- The numbers that are not rounded to infinity are those of a magnitude below the bound. -/
theorem isFinite_toBinary64_iff {d : Decimal} {q : ℚ} (h : d.value? = some q) :
    d.toBinary64.isFinite = true ↔ |q| < Binary64.overflow := by
  by_cases hq : q = 0
  · subst hq
    cases d with
    | infinite negative => cases h
    | nan negative signaling payload => cases h
    | finite negative c e =>
      have hpow : (10 : ℚ) ^ e ≠ 0 := zpow_ne_zero _ (by norm_num)
      have hsigned : signed negative c = 0 := by
        have hvalue := (mul_eq_zero_iff_right hpow).mp (Option.some.inj h)
        exact_mod_cast hvalue
      have hc : c = 0 := by rw [← natAbs_signed negative c, hsigned, Int.natAbs_zero]
      rw [abs_zero, iff_true_right Binary64.overflow_pos, toBinary64, hc]
      rfl
  · have hnum : q.num.natAbs ≠ 0 := by simpa using hq
    rw [toBinary64_eq_ofRat h hq, Binary64.ofRat,
      Binary64.isFinite_ofRatio_iff _ hnum q.den_ne_zero, ← abs_eq_natAbs_div_den]

end Decimal

end BlockDoc
