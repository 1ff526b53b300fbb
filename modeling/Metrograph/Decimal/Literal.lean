/-
Numbers as people type them: whole numbers with a bound, and decimal
numbers with an optional fraction and exponent. A refused text comes with
its cause.
-/
import Metrograph.Scalar.Binary64

namespace Metrograph.Decimal

-- ======================================================= whole numbers

/-- Why a text is not a whole number within its bound. -/
inductive WholeFault where
  | empty
  | invalidDigit
  | tooLarge
  deriving DecidableEq

def WholeFault.message : WholeFault → String
  | .empty => "cannot parse integer from empty string"
  | .invalidDigit => "invalid digit found in string"
  | .tooLarge => "number too large to fit in target type"

/-- The value of a decimal digit. -/
def digitValue (c : Char) : Nat := c.toNat - '0'.toNat

/-- The number a list of digits spells. -/
def natOfDigits (digits : List Char) : Nat :=
  digits.foldl (fun n c => 10 * n + digitValue c) 0

/-- Reads digits onto `n`, from the left; at each character a wrong digit is
noticed before an overflow. -/
def readDigits (limit : Nat) : Nat → List Char → Except WholeFault Nat
  | n, [] => .ok n
  | n, c :: rest =>
    if c.isDigit then
      let next := 10 * n + digitValue c
      if next ≤ limit then readDigits limit next rest else .error .tooLarge
    else .error .invalidDigit

/-- Reads a whole number up to `limit`. A plus sign may precede the digits. -/
def readWholeChars (limit : Nat) : List Char → Except WholeFault Nat
  | [] => .error .empty
  | ['+'] => .error .invalidDigit
  | '+' :: digits => readDigits limit 0 digits
  | digits => readDigits limit 0 digits

def readWhole (limit : Nat) (text : String) : Except WholeFault Nat :=
  readWholeChars limit text.toList

/-- The largest whole number of 32 bits. -/
def limit32 : Nat := Word.largest 32

/-- The largest whole number of 64 bits. -/
def limit64 : Nat := Word.largest 64

/-- Reads a count of 32 bits. -/
def readCount (text : String) : Except WholeFault UInt32 :=
  (readWhole limit32 text).map UInt32.ofNat

-- ===================================================== decimal numbers

/-- Why a text is not a number. -/
inductive NumberFault where
  | empty
  | invalid
  deriving DecidableEq

def NumberFault.message : NumberFault → String
  | .empty => "cannot parse float from empty string"
  | .invalid => "invalid float literal"

/-- The number nearest to what some digits spell, times `10 ^ exponent`. The
first digit other than zero tells the size, and beyond the range of
binary64 the digits do not matter. -/
def nearest (digits : List Char) (exponent : Int) : Float :=
  let digits := digits.dropWhile (· = '0')
  let size := exponent + digits.length
  if digits = [] ∨ size < -400 then 0
  else if 400 < size then 1 / 0
  else Float.ofScientific (natOfDigits digits) (decide (exponent < 0)) exponent.natAbs

/-- The exponent that some digits spell. From 65536 on it takes no more digits
in, so it stays small however many there are. -/
def exponentOfDigits (digits : List Char) : Nat :=
  digits.foldl (fun n c => if n < 65536 then 10 * n + digitValue c else n) 0

/-- Reads the exponent that may end a number. -/
def readExponent : List Char → Option Int
  | [] => some 0
  | e :: rest =>
    if e ≠ 'e' ∧ e ≠ 'E' then none
    else
      let (negative, digits) := match rest with
        | '-' :: digits => (true, digits)
        | '+' :: digits => (false, digits)
        | digits => (false, digits)
      if digits ≠ [] ∧ digits.all Char.isDigit then
        let n : Int := exponentOfDigits digits
        some (if negative then -n else n)
      else none

/-- Reads an unsigned number: digits with at most one point among or beside
them, then perhaps an exponent. -/
def readUnsigned (cs : List Char) : Option Float :=
  let whole := cs.takeWhile Char.isDigit
  let (fraction, rest) := match cs.dropWhile Char.isDigit with
    | '.' :: after => (after.takeWhile Char.isDigit, after.dropWhile Char.isDigit)
    | other => ([], other)
  let digits := whole ++ fraction
  if digits = [] then none
  else (readExponent rest).map fun exponent =>
    nearest digits (exponent - fraction.length)

/-- Reads an unsigned number or one of the words for a number that has no
digits, in any case. -/
def readMagnitude (cs : List Char) : Option Float :=
  let word := String.ofList (cs.map Char.toLower)
  if word = "inf" ∨ word = "infinity" then some (1 / 0)
  else if word = "nan" then some (0 / 0)
  else readUnsigned cs

/-- Reads a number with an optional sign. -/
def readNumber (text : String) : Except NumberFault Float :=
  match text.toList with
  | [] => .error .empty
  | cs =>
    let result := match cs with
      | '-' :: rest => (readMagnitude rest).map (- ·)
      | '+' :: rest => readMagnitude rest
      | _ => readMagnitude cs
    match result with
    | some x => .ok x
    | none => .error .invalid

end Metrograph.Decimal
