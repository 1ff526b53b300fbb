/-
Rhythm notation as it is written: a pattern is one or more groups laid end
to end, each splitting its span of beats into equal or weighted steps.

    2:1            two even notes over one beat
    3:2 | 2        triplets over two beats, then two eighths
    [2 1 1]        one long step, two short ones
    [!1@h ~1 1 1]  an accented note sounding h, a rest, two plain notes

The trees here keep every token as it was spelled; what a number or a name
means is decided when a pattern is compiled.
-/
import Metrograph.Scalar
import Metrograph.Decimal.Literal

namespace Metrograph.Rhythm

/-- A number as it is spelled: digits, and those after the point if there is
one. -/
structure Numeral where
  whole : List Char
  /-- The digits after the point; `none` when no point is written. -/
  fraction : Option (List Char)
  deriving DecidableEq

namespace Numeral

/-- The spelling of a numeral. -/
def chars (n : Numeral) : List Char :=
  match n.fraction with
  | none => n.whole
  | some digits => n.whole ++ '.' :: digits

def text (n : Numeral) : String := String.ofList n.chars

/-- The number a numeral spells. -/
def value {α : Type} [Scalar α] (n : Numeral) : α :=
  let fraction := n.fraction.getD []
  Scalar.ofDecimal (Decimal.natOfDigits (n.whole ++ fraction)) fraction.length

end Numeral

/-- A step that sounds. -/
structure Hit where
  accent : Bool
  weight : Numeral
  /-- The name after the sound mark. -/
  sound : Option (List Char)
  deriving DecidableEq

/-- One part of a weighted group. -/
inductive Step where
  | rest (weight : Option Numeral)
  | hit (hit : Hit)
  deriving DecidableEq

/-- How a group splits its span. -/
inductive Division where
  /-- Into as many equal notes as the digits say. -/
  | count (digits : List Char)
  /-- Into weighted steps, at least one. -/
  | weights (first : Step) (others : List Step)
  deriving DecidableEq

/-- One group of a pattern: its division and the beats it covers. -/
structure Group where
  division : Division
  /-- The beats the group covers, one if they are not written. -/
  span : Option Numeral
  deriving DecidableEq

/-- A whole pattern: one group or more. -/
structure Pattern where
  first : Group
  others : List Group
  deriving DecidableEq

def Pattern.groups (p : Pattern) : List Group := p.first :: p.others

-- ============================================================ spelling

/-- The tokens of a rest or a hit, run together. -/
def Step.chars : Step → List Char
  | .rest weight => '~' :: (weight.map Numeral.chars).getD []
  | .hit h =>
    (if h.accent then ['!'] else []) ++ h.weight.chars ++
      (match h.sound with
        | none => []
        | some name => '@' :: name)

/-- The tokens of a count or of bracketed steps, run together. -/
def Division.chars : Division → List Char
  | .count digits => digits
  | .weights first others => '[' :: ((first :: others).flatMap Step.chars ++ [']'])

def Group.chars (g : Group) : List Char :=
  g.division.chars ++
    (match g.span with
      | none => []
      | some n => ':' :: n.chars)

/-- All tokens of a pattern in order, without blanks or commas. -/
def Pattern.chars (p : Pattern) : List Char :=
  p.first.chars ++ p.others.flatMap fun g => '|' :: g.chars

end Metrograph.Rhythm
