/-
Why a text is no rhythm pattern, and how that is told.

A text that cannot be read at all is told with the place where reading got
stuck and a caret under it; a text that reads but means no rhythm is told
with the token to blame.
-/
import Metrograph.Rhythm.Attempts
import Metrograph.Text.Quoted

namespace Metrograph.Rhythm

/-- The largest count of an even division such as `7:2`. -/
def maxCount : Nat := 256

/-- The most notes that one pattern may have. -/
def maxNotes : Nat := 1024

/-- What a number measures. -/
inductive Measure where
  | weight
  | span
  deriving DecidableEq

def Measure.label : Measure → String
  | .weight => "weight"
  | .span => "span"

/-- Where a text stopped being a pattern. -/
structure Misreading where
  /-- The column of the failure in its line, counted in characters from one. -/
  column : Nat
  /-- The parts that could have stood there. -/
  expected : List Part
  /-- The line of the text that holds the failure, if it is found. -/
  line : Option String
  deriving DecidableEq

/-- Why a text has no meaning as a rhythm. -/
inductive Fault where
  | unreadable (misreading : Misreading)
  | count (text : String)
  | notPositive (what : Measure) (text : String)
  | spanTooShort (text : String)
  | noHits
  | tooManyNotes (notes : Nat)
  deriving DecidableEq

-- ========================================================= misreadings

/-- A list of names with commas and an `or` before the last. -/
def enumerate : List String → String
  | [] => ""
  | [a] => a
  | [a, b] => a ++ " or " ++ b
  | names => ", ".intercalate names.dropLast ++ ", or " ++ names.getLast?.getD ""

namespace Misreading

/-- The line and the column behind some characters, from those in front of
them. -/
def positionFrom (line column : Nat) : List Char → Nat × Nat
  | [] => (line, column)
  | c :: rest => if c = '\n' then positionFrom (line + 1) 1 rest
    else positionFrom line (column + 1) rest

/-- The line and the column behind some characters, both counted from one. -/
def position (cs : List Char) : Nat × Nat := positionFrom 1 1 cs

/-- The lines of a text without their line breaks, which are newlines with or
without a carriage return in front. -/
def lines : List Char → List (List Char)
  | [] => []
  | '\n' :: rest => [] :: lines rest
  | '\r' :: '\n' :: rest => [] :: lines rest
  | c :: rest => match lines rest with
    | [] => [[c]]
    | line :: others => (c :: line) :: others

/-- A line of a text by its number. The empty text has no lines, but a first
one is found in it. -/
def lineAt (cs : List Char) (number : Nat) : Option (List Char) :=
  if cs = [] then some [] else (lines cs)[number - 1]?

def message (m : Misreading) : String :=
  match m.expected with
  | [] => "unknown parsing error"
  | parts => "expected " ++ enumerate (parts.map Part.label)

/-- The line with a caret under the column, both indented. -/
def context (m : Misreading) : String :=
  match m.line with
  | none => "Unable to determine error context"
  | some line => "  " ++ line ++ "\n  " ++ String.ofList (List.replicate (m.column - 1) ' ') ++ "^"

end Misreading

-- ============================================================ messages

namespace Fault

def message : Fault → String
  | .unreadable m =>
    s!"rhythm syntax error at column {m.column}: " ++ m.message ++ "\n" ++ m.context
  | .count text => s!"subdivision count '{text}' must be between 1 and {maxCount}"
  | .notPositive what text => s!"{what.label} '{text}' must be a positive, finite number"
  | .spanTooShort text => s!"span '{text}' is shorter than the 0.015625 beat minimum"
  | .noHits => "pattern contains only rests"
  | .tooManyNotes notes =>
    s!"pattern compiles to {notes} notes, more than the {maxNotes} allowed"

end Fault

end Metrograph.Rhythm
