/-
What a JSON number is worth.

A whole number of 64 bits is exact. Any other number is a significand of
64 bits (as many leading digits as fit) scaled once by a power of ten,
which is exact to the last bit for up to fifteen digits and common
exponents, and may be off by one unit in the last place beyond.
-/
import Metrograph.Decimal.Literal

namespace Metrograph.Json

/-- The parts of a number's spelling. -/
structure Numeral where
  negative : Bool
  whole : List Char
  /-- The digits after the point, if there is one. -/
  fraction : Option (List Char)
  /-- The exponent, if there is one. -/
  exponent : Option Int

namespace Numeral

/-- Takes the digits off a text, at least one. -/
def digits (cs : List Char) : Option (List Char × List Char) :=
  let found := cs.takeWhile Char.isDigit
  if found = [] then none else some (found, cs.dropWhile Char.isDigit)

/-- Takes the digits before the point off a text; a zero stands alone. -/
def wholeDigits (cs : List Char) : Option (List Char × List Char) :=
  match digits cs with
  | some (['0'], rest) => some (['0'], rest)
  | some ('0' :: _, _) => none
  | other => other

/-- Takes a point and digits off a text, if it goes on with a point. -/
def fractionDigits : List Char → Option (Option (List Char) × List Char)
  | '.' :: rest => (digits rest).map fun (found, after) => (some found, after)
  | cs => some (none, cs)

/-- Takes the digits of an exponent off a text. -/
def signedExponent (negative : Bool) (cs : List Char) : Option (Option Int × List Char) :=
  (digits cs).map fun (found, after) =>
    let n : Int := Decimal.natOfDigits found
    (some (if negative then -n else n), after)

/-- Takes an exponent off a text, if it goes on with one. -/
def exponentPart : List Char → Option (Option Int × List Char)
  | c :: rest =>
    if c = 'e' ∨ c = 'E' then
      match rest with
      | '-' :: after => signedExponent true after
      | '+' :: after => signedExponent false after
      | after => signedExponent false after
    else some (none, c :: rest)
  | [] => some (none, [])

/-- Takes a number off a text. -/
def scan (cs : List Char) : Option (Numeral × List Char) := do
  let (negative, cs) := match cs with
    | '-' :: rest => (true, rest)
    | _ => (false, cs)
  let (whole, cs) ← wholeDigits cs
  let (fraction, cs) ← fractionDigits cs
  let (exponent, cs) ← exponentPart cs
  return (⟨negative, whole, fraction, exponent⟩, cs)

/-- The parts of a whole spelling. -/
def ofSpelling (spelling : List Char) : Option Numeral :=
  match scan spelling with
  | some (n, []) => some n
  | _ => none

-- ============================================================== values

/-- The whole number that is spelled without point and exponent; a negative
zero is not one. -/
def toInt? (n : Numeral) : Option Int :=
  match n.fraction, n.exponent with
  | none, none =>
    let size : Int := Decimal.natOfDigits n.whole
    if n.negative then (if size = 0 then none else some (-size)) else some size
  | _, _ => none

/-- Adds digits to a significand as long as it stays within 64 bits; the
digits left over are returned. -/
def absorb : Nat → List Char → Nat × List Char
  | s, [] => (s, [])
  | s, c :: rest =>
    let next := 10 * s + Decimal.digitValue c
    if next ≤ Decimal.limit64 then absorb next rest else (s, c :: rest)

/-- The significand and the power of ten of a number, signs apart. -/
def scaled (n : Numeral) : Nat × Int :=
  let (s, dropped) := absorb 0 n.whole
  let fraction := n.fraction.getD []
  let (s, unused) := absorb s fraction
  (s, (dropped.length : Int) - (fraction.length - unused.length : Nat) + n.exponent.getD 0)

def tenTo (e : Nat) : Float := Float.ofScientific 1 false e

/-- A significand scaled by a power of ten; none if it is out of range. -/
def scale (significand : Nat) (exponent : Int) : Option Float :=
  let s := Float.ofNat significand
  if significand = 0 then some 0
  else if 308 < exponent then none
  else if 0 ≤ exponent then
    let x := s * tenTo exponent.toNat
    if x.isFinite then some x else none
  else if -308 ≤ exponent then some (s / tenTo (-exponent).toNat)
  else if -616 ≤ exponent then some (s / tenTo 308 / tenTo (-(exponent + 308)).toNat)
  else some 0

/-- The number a spelling is worth; none if it is out of range. -/
def toFloat? (n : Numeral) : Option Float :=
  let size := match n.toInt? with
    | some k => if k.natAbs ≤ Decimal.limit64 then some (Float.ofNat k.natAbs) else none
    | none => none
  let size := match size with
    | some x => some x
    | none => let (s, e) := n.scaled; scale s e
  size.map fun x => if n.negative then -x else x

end Numeral

end Metrograph.Json
