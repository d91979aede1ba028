/-!
# Decimal numbers

A decimal number is a sign, a coefficient and a power of ten, so that it keeps every digit of the
text that it was read from. Infinities and two sorts of "not a number" complete the type.

## Main definitions

* `Decimal` — the numbers
* `Decimal.isFinite` — whether a number has a value
* `Decimal.toInt?` — the value of an integral number
* `Decimal.same` — numerical equality
* `signed` — an integer given by sign and magnitude
-/

namespace BlockDoc

/-- The integer with the given sign and magnitude. -/
def signed (negative : Bool) (magnitude : Nat) : Int :=
  if negative then -(magnitude : Int) else magnitude

/-- A decimal number. `finite negative c e` is the number `c * 10 ^ e` with its sign; the payload of
a `nan` is the number after its name. -/
inductive Decimal
  | finite (negative : Bool) (coefficient : Nat) (exponent : Int)
  | infinite (negative : Bool)
  | nan (negative signaling : Bool) (payload : Nat)
  deriving DecidableEq, Repr

namespace Decimal

/-- Whether the number is neither infinite nor `nan`. -/
def isFinite : Decimal → Bool
  | .finite .. => true
  | _ => false

/-- `c / 10 ^ k` if that is a natural number. A positive coefficient below `8 ^ k` is no multiple of
`10 ^ k`, which settles small numbers without computing the power. -/
def divPow? (c k : Nat) : Option Nat :=
  if c = 0 then some 0
  else if c.log2 < 3 * k then none
  else if c % Nat.pow 10 k = 0 then some (c / Nat.pow 10 k)
  else none

/-- The value of an integral number, at any magnitude. -/
def toInt? : Decimal → Option Int
  | .finite negative c e =>
    if 0 ≤ e then
      some (signed negative (if c = 0 then 0 else c * Nat.pow 10 e.toNat))
    else
      (divPow? c (-e).toNat).map (signed negative)
  | _ => none

/-- How often a number is divisible by ten without remainder, up to a bound, and what is left. -/
def dropZeros : Nat → Nat → Nat × Nat
  | 0, c => (c, 0)
  | bound + 1, c =>
    if c % 10 = 0 then
      let (c, zeros) := dropZeros bound (c / 10)
      (c, zeros + 1)
    else (c, 0)

/-- The number with the shortest coefficient; all zeros have the same one. -/
def shorten : Decimal → Decimal
  | .finite negative c e =>
    if c = 0 then .finite false 0 0
    else
      let (c, zeros) := dropZeros c.log2 c
      .finite negative c (e + zeros)
  | d => d

/-- Numerical equality, under which a `nan` differs from itself. -/
def same (a b : Decimal) : Bool :=
  match a, b with
  | .nan .., _ => false
  | a, b => a.shorten == b.shorten

end Decimal

end BlockDoc
