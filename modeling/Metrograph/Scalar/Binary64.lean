/-
The binary64 reading of the beat arithmetic.

Sums, products and quotients are the machine's own. What goes through the
exact value is taken apart here: a finite number is a sign, a significand
below `2 ^ 53` and an exponent of two (`Parts`), and `assemble` puts such
parts back together.
-/
import Metrograph.Scalar

namespace Metrograph

namespace Binary64

/-- A finite number as `significand * 2 ^ exponent`, with its sign. The parts
of an infinity are those of the first power of two beyond the range. -/
structure Parts where
  negative : Bool
  significand : Nat
  exponent : Int
  deriving DecidableEq

/-- Reads the sign, exponent and fraction fields of a number's bits. -/
def partsOfBits (bits : Nat) : Parts :=
  let fraction : Nat := bits % Nat.pow 2 52
  let field : Nat := bits / Nat.pow 2 52 % Nat.pow 2 11
  let negative := decide (bits / Nat.pow 2 63 % 2 = 1)
  if field = 0 then ⟨negative, fraction, -1074⟩
  else ⟨negative, Nat.pow 2 52 + fraction, (field : Int) - 1075⟩

def parts (x : Float) : Parts := partsOfBits x.toBits.toNat

/-- The rational that a significand and an exponent stand for. -/
def Parts.size (p : Parts) : Rat :=
  if 0 ≤ p.exponent then (p.significand * Nat.pow 2 p.exponent.toNat : Nat)
  else mkRat p.significand (Nat.pow 2 (-p.exponent).toNat)

/-- The rational that all parts stand for. -/
def Parts.value (p : Parts) : Rat := if p.negative then -p.size else p.size

/-- The exact value of a number; zero for an undefined one. -/
def value (x : Float) : Rat := if x.isNaN then 0 else (parts x).value

-- ============================================================ assembly

/-- The bits of a positive `significand * 2 ^ exponent` that needs no
rounding. -/
def bitsOfParts (significand : Nat) (exponent : Int) : Nat :=
  if significand = 0 then 0
  else
    let length := significand.log2 + 1
    let target := max (exponent + length - 53) (-1074)
    let aligned :=
      if exponent ≤ target then significand / Nat.pow 2 (target - exponent).toNat
      else significand * Nat.pow 2 (exponent - target).toNat
    if aligned < Nat.pow 2 52 then aligned
    else (target + 1075).toNat * Nat.pow 2 52 + (aligned - Nat.pow 2 52)

/-- The number with the given parts. -/
def assemble (p : Parts) : Float :=
  let bits := bitsOfParts p.significand p.exponent + (if p.negative then Nat.pow 2 63 else 0)
  Float.ofBits (UInt64.ofNat bits)

-- =========================================================== remainder

/-- The remainder of two finite numbers, the divisor not zero: both are
written over the smaller power of two and divided as whole numbers. -/
def remainder (x m : Float) : Float :=
  let a := parts x
  let b := parts m
  let scale := min a.exponent b.exponent
  let dividend := a.significand * Nat.pow 2 (a.exponent - scale).toNat
  let divisor := b.significand * Nat.pow 2 (b.exponent - scale).toNat
  assemble ⟨a.negative, dividend % divisor, scale⟩

end Binary64

instance : Scalar Float where
  ofInt := Float.ofInt
  ofDecimal := fun digits places => Float.ofScientific digits true places
  value := Binary64.value
  isFinite := Float.isFinite
  rem := fun x m =>
    if !x.isFinite || m.isNaN || m == 0 then 0 / 0
    else if !m.isFinite then x
    else Binary64.remainder x m
  saturate := Scalar.clip (Word.lowest 63) (Word.highest 63)
  overflow := fun n => Int.bmod n (Word.count 64)
  decLt := inferInstance
  decLe := inferInstance

end Metrograph
