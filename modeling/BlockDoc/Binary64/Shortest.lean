import BlockDoc.Binary64.Basic
import BlockDoc.Text.Digit

/-!
# Shortest decimal digits

Among the decimal numbers that are read back as a given floating-point number, the ones with the
fewest digits are found by testing one decimal grid after the other, the coarsest first. On each
grid only the two neighbours of the number can be the answer.

## Main definitions

* `Binary64.Neighbourhood` — a number with the interval of reals that round to it
* `Binary64.Neighbourhood.nearest?` — the better neighbour on a grid that lies in the interval
* `Binary64.shortest` — the fewest digits that read back, the nearest of these
* `Binary64.text` — the text of a number under a layout
-/

namespace BlockDoc

namespace Binary64

/-- A positive number `value * 2 ^ unit` and the bounds of the interval of reals that are rounded to
it. The bounds belong to the interval if `closed` holds. -/
structure Neighbourhood where
  unit : Int
  low : Nat
  value : Nat
  high : Nat
  closed : Bool

/-- The neighbourhood of `m * 2 ^ q`. The bounds are the midpoints to the next numbers, of which the
lower one is twice as near if `m` is the least mantissa; a midpoint is rounded to `m` if `m` is
even. -/
def neighbourhood (m : Nat) (q : Int) : Neighbourhood where
  unit := q - 2
  low := if m = leastMantissa ∧ minExponent < q then 4 * m - 1 else 4 * m - 2
  value := 4 * m
  high := 4 * m + 2
  closed := m % 2 == 0

/-- Factors `(p, r)` such that `d * 10 ^ k` and `x * 2 ^ u` compare like `d * p` and `x * r`. -/
def gridFactors (k u : Int) : Nat × Nat :=
  (Nat.pow 10 k.toNat * Nat.pow 2 (-u).toNat, Nat.pow 2 u.toNat * Nat.pow 10 (-k).toNat)

/-- Whether `d * 10 ^ k` lies in the interval. -/
def Neighbourhood.contains (b : Neighbourhood) (k : Int) (d : Nat) : Bool :=
  let (p, r) := gridFactors k b.unit
  if b.closed then b.low * r ≤ d * p && d * p ≤ b.high * r
  else b.low * r < d * p && d * p < b.high * r

/-- The neighbour of the number on the multiples of `10 ^ k` that lies in the interval. Of two the
nearer one is taken, and at equal distance the even one. -/
def Neighbourhood.nearest? (b : Neighbourhood) (k : Int) : Option Nat :=
  let (p, r) := gridFactors k b.unit
  let below := b.value * r / p
  match b.contains k below, b.contains k (below + 1) with
  | false, false => none
  | true, false => some below
  | false, true => some (below + 1)
  | true, true => some (roundDiv (b.value * r) p)

/-- The power of ten of the first digit of `m * 2 ^ q`. The logarithm of two, 0.30103 to five
places, gives it or the power below it. -/
def firstPower (m : Nat) (q : Int) : Int :=
  let guess := (((m.log2 : Int) + q) * 30103).fdiv 100000
  let (p, r) := gridFactors (guess + 1) q
  if p ≤ m * r then guess + 1 else guess

/-- Digits `d` and a power `k` such that `d * 10 ^ k` is read back as the positive number
`m * 2 ^ q`, with the fewest digits possible, and the nearest such. Seventeen digits always
suffice. -/
def shortest (m : Nat) (q : Int) : Nat × Int :=
  let b := neighbourhood m q
  let power := firstPower m q
  let grids := (List.range 17).map fun (i : Nat) => power - i
  match grids.findSome? fun k => (b.nearest? k).map fun d => (d, k) with
  | some found => found
  | none => (m, q)

/-! ## Layout -/

/-- How digits are laid out: positionally if the power of ten of the first digit is at least
`lowest` and below `highest`, and else with an exponent of at least `width` digits. -/
structure Layout where
  lowest : Int
  highest : Int
  width : Nat

/-- Numbers from `0.0001` up to below `10 ^ 16` are written positionally, and exponents have at
least two digits. -/
def standardLayout : Layout := ⟨-4, 16, 2⟩

/-- Digits without the zeros at their end. -/
def dropTrailingZeros (ds : List Char) : List Char :=
  (ds.reverse.dropWhile (· == '0')).reverse

/-- The digits with `point` of them before the point, and at least one on either side. -/
def positional (digits : List Char) (point : Int) : List Char :=
  let digits := List.replicate (1 - point).toNat '0' ++ digits
  let before := (max point 1).toNat
  let fraction := match digits.drop before with
    | [] => ['0']
    | ds => ds
  digits.take before ++ List.replicate (before - digits.length) '0' ++ '.' :: fraction

/-- The digits with a point after the first, and the exponent with its sign. -/
def scientific (layout : Layout) (digits : List Char) (power : Int) : List Char :=
  let fraction := match digits.drop 1 with
    | [] => []
    | ds => '.' :: ds
  let sign := if power < 0 then '-' else '+'
  let exponent := Text.natChars power.natAbs
  digits.take 1 ++ fraction ++
    'e' :: sign :: (List.replicate (layout.width - exponent.length) '0' ++ exponent)

/-- The text of the positive number `m * 2 ^ q`. -/
def magnitudeText (layout : Layout) (m : Nat) (q : Int) : List Char :=
  let (d, k) := shortest m q
  let all := Text.natChars d
  let power := k + all.length - 1
  let digits := dropTrailingZeros all
  if layout.lowest ≤ power ∧ power < layout.highest then positional digits (power + 1)
  else scientific layout digits power

/-- The names of the numbers without digits. -/
structure Names where
  nan : String
  infinity : String

/-- The names that stand for themselves in a listing of values. -/
def plainNames : Names := ⟨"nan", "inf"⟩

/-- The text of a number: its fewest digits, or its name. -/
def textWith (layout : Layout) (names : Names) (x : Binary64) : String :=
  let sign (negative : Bool) : String := if negative then "-" else ""
  match x with
  | .nan => names.nan
  | .infinite negative => sign negative ++ names.infinity
  | .finite negative 0 _ => sign negative ++ "0.0"
  | .finite negative m q => sign negative ++ String.ofList (magnitudeText layout m q)

/-- The text of a number in the standard layout. -/
def text (x : Binary64) : String :=
  textWith standardLayout plainNames x

end Binary64

end BlockDoc
