/-
Spans of time as text: numbers each followed by a unit, added up.

White space does not count anywhere. The text is cut into pieces of
numerals (of any script) and what follows them; the number of a piece is
read before its unit, and the pieces from left to right.
-/
import Metrograph.Decimal.Literal
import Metrograph.Text.Character

namespace Metrograph.Config

/-- Why a text is no span of time. -/
inductive DurationFault where
  | number (fault : Decimal.WholeFault)
  | unit
  | tooLarge
  /-- It is one, but of no length. -/
  | zero
  deriving DecidableEq

def DurationFault.message : DurationFault → String
  | .number fault => fault.message
  | .unit =>
    "missing time duration format, must be multiples of \x60[0-9]+(ns|us|ms|[smhdwy])\x60"
  | .tooLarge => "number is too large to fit in target type"
  | .zero => "must be greater than zero"

namespace Duration

/-- Nanoseconds of one second. -/
def second : Nat := 1000000000

/-- The longest span: the seconds are counted in 64 bits. -/
def longest : Nat := Word.count 64 * second - 1

/-- The nanoseconds of a unit. A year is 365.2422 days, in whole seconds. -/
def unitLength (unit : List Char) : Option Nat :=
  if unit = ['n', 's'] then some 1
  else if unit = ['u', 's'] then some 1000
  else if unit = ['m', 's'] then some 1000000
  else if unit = ['s'] then some second
  else if unit = ['m'] then some (60 * second)
  else if unit = ['h'] then some (3600 * second)
  else if unit = ['d'] then some (86400 * second)
  else if unit = ['w'] then some (604800 * second)
  else if unit = ['y'] then some (31556926 * second)
  else none

/-- A run of numerals and the run of other characters after it. -/
structure Piece where
  number : List Char
  unit : List Char

/-- The pieces of a text without white space; only the first can lack a
number. -/
def pieces : List Char → List Piece
  | [] => [⟨[], []⟩]
  | c :: rest =>
    match pieces rest with
    | [] => []
    | p :: others =>
      if Text.isNumeric c then { p with number := c :: p.number } :: others
      else if p.number = [] then { p with unit := c :: p.unit } :: others
      else ⟨[], [c]⟩ :: p :: others

/-- The nanoseconds of one piece. -/
def Piece.length (p : Piece) : Except DurationFault Nat :=
  match Decimal.readWholeChars Decimal.limit64 p.number with
  | .error fault => .error (.number fault)
  | .ok n =>
    match unitLength p.unit with
    | none => .error .unit
    | some unit => if n * unit ≤ longest then .ok (n * unit) else .error .tooLarge

/-- Adds pieces to a sum of nanoseconds. -/
def addPieces : Nat → List Piece → Except DurationFault Nat
  | sum, [] => .ok sum
  | sum, p :: rest => do
    let n ← p.length
    if sum + n ≤ longest then addPieces (sum + n) rest else .error .tooLarge

/-- Reads a span of time, in nanoseconds. -/
def read (text : String) : Except DurationFault Nat :=
  addPieces 0 (pieces (text.toList.filter fun c => !Text.isBlank c))

end Duration

end Metrograph.Config
