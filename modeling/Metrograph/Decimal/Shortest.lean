/-
The fewest decimal digits that read back to a binary64 number.

The reals that round to a number form an interval: from halfway to the
neighbour below to halfway to the neighbour above, ends included when the
significand is even. A decimal reads back exactly when it lies in there.
`shortest` tries the decimals of one digit, then of two, and so on; on
each grid only the two neighbours of the number can be nearest to it, so
the first grid with a neighbour inside the interval gives the answer.
-/
import Metrograph.Scalar.Binary64

namespace Metrograph.Decimal

/-- `digits * 10 ^ exponent`. -/
structure Digits where
  digits : Nat
  exponent : Int
  deriving DecidableEq, Repr

/-- Which of two equally near decimals is taken. -/
inductive Tie where
  | upward
  | toEven
  deriving DecidableEq

/-- A power of ten. -/
def tenTo (e : Int) : Rat :=
  if 0 ≤ e then (Nat.pow 10 e.toNat : Nat) else mkRat 1 (Nat.pow 10 (-e).toNat)

def Digits.value (d : Digits) : Rat := d.digits * tenTo d.exponent

/-- Moves trailing zeros into the exponent. -/
def Digits.strip (d : Digits) : Digits :=
  if d.digits ≠ 0 ∧ d.digits % 10 = 0 then Digits.strip ⟨d.digits / 10, d.exponent + 1⟩ else d
termination_by d.digits
decreasing_by omega

-- =================================================== the interval

/-- The reals that round to one number. -/
structure Interval where
  lower : Rat
  upper : Rat
  /-- Whether the ends themselves round to it. -/
  closed : Bool

def Interval.contains (i : Interval) (q : Rat) : Bool :=
  if i.closed then decide (i.lower ≤ q) && decide (q ≤ i.upper)
  else decide (i.lower < q) && decide (q < i.upper)

/-- What rounds to a number, signs apart. The gap below a power of two is half
the gap above it, except where the numbers are evenly spaced. -/
def roundingInterval (p : Binary64.Parts) : Interval :=
  let quarter : Rat := (Binary64.Parts.mk false 1 (p.exponent - 2)).size
  let narrow := p.significand = Nat.pow 2 52 ∧ -1074 < p.exponent
  let below : Nat := 4 * p.significand - (if narrow then 1 else 2)
  let above : Nat := 4 * p.significand + 2
  ⟨below * quarter, above * quarter, p.significand % 2 = 0⟩

-- ==================================================== the search

/-- The least power of ten above a positive rational. -/
def magnitude (q : Rat) : Int :=
  let guess : Int :=
    (Nat.toDigits 10 q.num.natAbs).length - (Nat.toDigits 10 q.den).length
  if q < tenTo guess then guess else guess + 1

/-- The nearer of the grid's neighbours of `q` that lie in the interval. -/
def nearestOnGrid (tie : Tie) (i : Interval) (q : Rat) (exponent : Int) : Option Digits :=
  let unit := tenTo exponent
  let below := (q / unit).floor.toNat
  let low : Rat := below * unit
  let high : Rat := low + unit
  match i.contains low, i.contains high with
  | false, false => none
  | true, false => some ⟨below, exponent⟩
  | false, true => some ⟨below + 1, exponent⟩
  | true, true =>
    let doubled := q + q
    let middle := low + high
    let takeLow : Bool :=
      if doubled = middle then (match tie with
        | .upward => false
        | .toEven => below % 2 == 0)
      else decide (doubled < middle)
    some ⟨if takeLow then below else below + 1, exponent⟩

/-- The exact decimal of a finite number, signs apart. -/
def exact (p : Binary64.Parts) : Digits :=
  if 0 ≤ p.exponent then ⟨p.significand * Nat.pow 2 p.exponent.toNat, 0⟩
  else ⟨p.significand * Nat.pow 5 (-p.exponent).toNat, p.exponent⟩

/-- The shortest digits that read back to a number other than zero, signs
apart, and of those the nearest to it. Seventeen digits always suffice. -/
def shortest (tie : Tie) (p : Binary64.Parts) : Digits :=
  let q := p.size
  let interval := roundingInterval p
  let top := magnitude q
  let found := (List.range 17).findSome? fun n =>
    nearestOnGrid tie interval q (top - (n + 1 : Nat))
  (found.getD (exact p)).strip

end Metrograph.Decimal
