import BlockDoc.Decimal.Basic

/-!
# Binary floating-point numbers of 64 bits

The numbers are kept as sign, mantissa and power of two, so that every operation is one on integers.
Rounding goes to the nearest number, and a tie to the one with the even mantissa.

## Main definitions

* `Binary64` — the numbers
* `Binary64.ofRatio` — the number nearest to a quotient
* `Decimal.toBinary64` — the number nearest to a decimal number
* `Binary64.toInt?` — the value of an integral number
* `Binary64.same` — numerical equality, under which a `nan` differs from itself
-/

namespace BlockDoc

/-- A floating-point number. `finite negative m q` is `m * 2 ^ q` with its sign, where the mantissa
is below `2 ^ 53`, and at least `2 ^ 52` unless the exponent is the least one. -/
inductive Binary64
  | finite (negative : Bool) (mantissa : Nat) (exponent : Int)
  | infinite (negative : Bool)
  | nan
  deriving DecidableEq, Repr

namespace Binary64

/-- The exponent of the smallest numbers. -/
def minExponent : Int := -1074

/-- The exponent of the largest numbers. -/
def maxExponent : Int := 971

/-- The least mantissa of a number whose exponent is not the least: `2 ^ 52`. -/
def leastMantissa : Nat := 4503599627370496

/-- The zero of either sign. -/
def zero (negative : Bool) : Binary64 := .finite negative 0 minExponent

/-- Whether the number is neither infinite nor `nan`. -/
def isFinite : Binary64 → Bool
  | .finite .. => true
  | _ => false

/-- Whether the number is a zero. -/
def isZero : Binary64 → Bool
  | .finite _ m _ => m == 0
  | _ => false

/-- The natural number nearest to `n / d`; of two equally near ones the even one. -/
def roundDiv (n d : Nat) : Nat :=
  let floor := n / d
  let excess := 2 * (n % d)
  if excess < d then floor
  else if d < excess then floor + 1
  else if floor % 2 = 0 then floor
  else floor + 1

/-- `n / d / 2 ^ q` as a quotient of natural numbers. -/
def scale (n d : Nat) (q : Int) : Nat × Nat :=
  if 0 ≤ q then (n, d * Nat.pow 2 q.toNat) else (n * Nat.pow 2 (-q).toNat, d)

/-- The exponent under which `n / d` has a mantissa of 53 bits, or the least exponent if that is
larger. -/
def exponentOf (n d : Nat) : Int :=
  let low : Int := (n.log2 : Int) - d.log2 - 53
  let (n', d') := scale n d low
  max minExponent (if n' / d' < 2 * leastMantissa then low else low + 1)

/-- The number with the given sign nearest to `n / d`. -/
def ofRatio (negative : Bool) (n d : Nat) : Binary64 :=
  if n = 0 then zero negative
  else
    let q := exponentOf n d
    let (n', d') := scale n d q
    let m := roundDiv n' d'
    let (m, q) := if m = 2 * leastMantissa then (leastMantissa, q + 1) else (m, q)
    if maxExponent < q then .infinite negative else .finite negative m q

/-- The number nearest to `c * 10 ^ e`. Exponents far outside the range are settled without
computing the power: `10 ^ 400` is above all numbers, and `c * 10 ^ e` is below half of the least
positive number if `c` is below `8 ^ (-e) / 2 ^ 1080`. -/
def ofScientific (negative : Bool) (c : Nat) (e : Int) : Binary64 :=
  if c = 0 then zero negative
  else if 0 ≤ e then
    if 400 < e then .infinite negative else ofRatio negative (c * Nat.pow 10 e.toNat) 1
  else
    let k := (-e).toNat
    if c.log2 + 1081 ≤ 3 * k then zero negative else ofRatio negative c (Nat.pow 10 k)

/-- The number nearest to an integer. -/
def ofInt (n : Int) : Binary64 :=
  ofRatio (n < 0) n.natAbs 1

/-- The value of an integral number. -/
def toInt? : Binary64 → Option Int
  | .finite negative m q =>
    if 0 ≤ q then some (signed negative (m * Nat.pow 2 q.toNat))
    else if m % Nat.pow 2 (-q).toNat = 0 then
      some (signed negative (m / Nat.pow 2 (-q).toNat))
    else none
  | _ => none

/-- The same number as a decimal number. -/
def toDecimal : Binary64 → Decimal
  | .finite negative m q =>
    if 0 ≤ q then .finite negative (m * Nat.pow 2 q.toNat) 0
    else .finite negative (m * Nat.pow 5 (-q).toNat) q
  | .infinite negative => .infinite negative
  | .nan => .nan false false 0

/-- Numerical equality: a `nan` equals nothing, and the two zeros equal one another. -/
def same (x y : Binary64) : Bool :=
  match x, y with
  | .nan, _ => false
  | _, .nan => false
  | x, y => (x.isZero && y.isZero) || x == y

end Binary64

/-- The floating-point number nearest to a decimal number. -/
def Decimal.toBinary64 : Decimal → Binary64
  | .finite negative c e => Binary64.ofScientific negative c e
  | .infinite negative => .infinite negative
  | .nan .. => .nan

end BlockDoc
