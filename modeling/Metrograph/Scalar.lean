/-
The numbers that beats, margins, gains and pixel offsets are measured in.

Everything on the beat axis is written once, against `Scalar`, and read
twice: over binary64, which is what runs (`Scalar/Binary64.lean`), and
over the exact rationals, where nothing is rounded and the geometry can be
reasoned about. Every scalar has an exact rational `value`; rounding to
whole numbers goes through it, so floors, ceilings and truncations mean
the same in both readings.

The integers that go with the scalars are 64 bits wide beside binary64 and
unbounded beside the rationals. What some bits can hold is counted in
`Word`.

# Numbers without a value

An infinite or undefined scalar still has a `value` (a rational larger
than every finite one, or zero), so that clipping an overflowing
coordinate to a canvas needs no case of its own. Where the difference
matters the callers ask `isFinite` first.
-/
namespace Metrograph.Word

/-- How many numbers some bits can hold. -/
def count (bits : Nat) : Nat := Nat.pow 2 bits

/-- The largest number without a sign. -/
def largest (bits : Nat) : Nat := count bits - 1

/-- The smallest number with a sign, of `bits` bits beside it. -/
def lowest (bits : Nat) : Int := -(count bits : Int)

/-- The largest number with a sign, of `bits` bits beside it. -/
def highest (bits : Nat) : Int := (count bits : Int) - 1

end Metrograph.Word

namespace Metrograph

/-- The arithmetic that the beat axis needs. -/
class Scalar (α : Type) extends Add α, Sub α, Mul α, Div α, Neg α, LT α, LE α where
  /-- The scalar nearest to a whole number. -/
  ofInt : Int → α
  /-- The scalar nearest to a decimal numeral: its digits over a power of ten. -/
  ofDecimal : (digits places : Nat) → α
  /-- The exact rational a finite scalar stands for. -/
  value : α → Rat
  /-- Neither infinite nor undefined. -/
  isFinite : α → Bool
  /-- What a whole number of divisors, counted towards zero, leaves over. It
  has the sign of the dividend and is never rounded. -/
  rem : α → α → α
  /-- A whole number as it is held beside such scalars: at the nearest end of
  its range when it does not fit. -/
  saturate : Int → Int
  /-- A whole number as it is computed beside such scalars: modulo its range
  when it does not fit. -/
  overflow : Int → Int
  decLt : DecidableLT α
  decLe : DecidableLE α

attribute [reducible, instance] Scalar.decLt Scalar.decLe

namespace Scalar

variable {α : Type} [Scalar α]

/-- The scalar nearest to a count. -/
def ofNat (n : Nat) : α := ofInt n

def zero : α := ofNat 0

def one : α := ofNat 1

-- ======================================================= whole numbers

/-- The largest whole number not above `x`. -/
def floor (x : α) : Int := (value x).floor

/-- The smallest whole number not below `x`. -/
def ceil (x : α) : Int := (value x).ceil

/-- The largest whole number not above `x`, as a scalar. -/
def roundDown (x : α) : α := ofInt (floor x)

/-- `n` moved into `[low, high]`. -/
def clip (low high n : Int) : Int := max low (min high n)

/-- The largest whole number not above `x`, as it is held. -/
def heldFloor (x : α) : Int := saturate α (floor x)

/-- `n` rounded from a rational to the nearest whole number, a half to the
even neighbour. -/
def nearestEven (q : Rat) : Int :=
  let below := q.floor
  let rest := q - below
  if rest < 1 / 2 then below
  else if 1 / 2 < rest then below + 1
  else if below % 2 = 0 then below
  else below + 1

-- ============================================================ ordering

/-- `x` moved into `[low, high]`; an undefined `x` stays undefined. -/
def clamp (low high x : α) : α :=
  if x < low then low else if high < x then high else x

/-- `x` moved into the unit interval. -/
def clampUnit (x : α) : α := clamp zero one x

/-- At most one; an undefined `x` counts as one. -/
def capOne (x : α) : α := if x < one then x else one

/-- The larger of two scalars. -/
def larger (x y : α) : α := if x < y then y else x

/-- The distance from zero. -/
def magnitude (x : α) : α := if x < zero then -x else x

/-- Whether two scalars count as the same setting; an undefined one is never
the same as anything. -/
def same (x y : α) : Bool := decide (x ≤ y) && decide (y ≤ x)

-- ============================================================= wrapping

/-- The place of `x` within a period, in `[0, period)` up to rounding. -/
def wrap (x period : α) : α :=
  let r := rem x period
  if r < zero then r + magnitude period else r

end Scalar

-- ============================================================ rationals

/-- The whole part of a rational, counted towards zero. -/
def Exact.towardsZero (q : Rat) : Int := if q < 0 then q.ceil else q.floor

instance : Scalar Rat where
  ofInt := fun n => (n : Rat)
  ofDecimal := fun digits places => mkRat digits (Nat.pow 10 places)
  value := fun q => q
  isFinite := fun _ => true
  rem := fun x m => x - m * (Exact.towardsZero (x / m) : Rat)
  saturate := id
  overflow := id
  decLt := inferInstance
  decLe := inferInstance

end Metrograph
