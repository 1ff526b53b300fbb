/-
How the digits of a number are laid out as text.

The digits come from `Decimal/Shortest.lean`; a `Layout` says the rest:
down to which and up to which power of ten the text is positional, whether
a whole number keeps a fraction, and how an exponent is signed. The three
layouts of this library stand at the end.
-/
import Metrograph.Decimal.Shortest

namespace Metrograph.Decimal

/-- The decisions of a number format. -/
structure Layout where
  /-- The choice between two equally near decimals. -/
  tie : Tie
  /-- Whether a whole number is written with `.0`. -/
  wholeMark : Bool
  /-- The powers of ten of the leading digit that are written positionally. -/
  positional : Int → Bool
  /-- Whether a positive exponent carries a plus sign. -/
  exponentPlus : Bool

/-- Positional text of digits whose first one counts units of `10 ^ lead`. -/
def positionalText (wholeMark : Bool) (digits : List Char) (lead : Int) : List Char :=
  if lead < 0 then
    '0' :: '.' :: (List.replicate (-lead - 1).toNat '0' ++ digits)
  else
    let whole := lead.toNat + 1
    if digits.length ≤ whole then
      digits ++ List.replicate (whole - digits.length) '0' ++
        (if wholeMark then ['.', '0'] else [])
    else digits.take whole ++ '.' :: digits.drop whole

/-- Text with one digit before the point and an exponent. -/
def scientificText (plus : Bool) (digits : List Char) (lead : Int) : List Char :=
  let mantissa := match digits with
    | [] => []
    | [d] => [d]
    | d :: rest => d :: '.' :: rest
  let sign := if lead < 0 then ['-'] else if plus then ['+'] else []
  mantissa ++ 'e' :: (sign ++ Nat.toDigits 10 lead.natAbs)

/-- The text of a finite number without its sign. -/
def Layout.magnitudeText (layout : Layout) (p : Binary64.Parts) : List Char :=
  if p.significand = 0 then positionalText layout.wholeMark ['0'] 0
  else
    let d := shortest layout.tie p
    let digits := Nat.toDigits 10 d.digits
    let lead := d.exponent + digits.length - 1
    if layout.positional lead then positionalText layout.wholeMark digits lead
    else scientificText layout.exponentPlus digits lead

/-- The text of a number: its sign, also that of a negative zero, and its
digits. -/
def Layout.text (layout : Layout) (x : Float) : String :=
  if x.isNaN then "NaN"
  else
    let p := Binary64.parts x
    let sign := if p.negative then ['-'] else []
    let body := if x.isFinite then layout.magnitudeText p else ['i', 'n', 'f']
    String.ofList (sign ++ body)

-- ========================================================= the layouts

/-- Values and messages: always positional, a whole number without a point. -/
def plain : Layout := ⟨.upward, false, fun _ => true, false⟩

/-- Encoded documents: positional from `0.00001` to below `10 ^ 16`. -/
def encoded : Layout := ⟨.toEven, true, fun lead => decide (-5 ≤ lead ∧ lead < 16), true⟩

/-- Field dumps of errors: positional from `0.0001` to below `10 ^ 16`. -/
def dumped : Layout := ⟨.upward, true, fun lead => decide (-4 ≤ lead ∧ lead < 16), false⟩

end Metrograph.Decimal
