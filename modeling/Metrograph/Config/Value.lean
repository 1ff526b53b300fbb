/-
Configuration values of every kind, and their texts.

A rhythm is typed bit by bit: its field holds the text as it stands and the
last loop that compiled. A text that does not compile leaves the loop as it
was.
-/
import Metrograph.Decimal.Layout
import Metrograph.Rhythm.Compile
import Metrograph.Text.Character

namespace Metrograph.Config

/-- A rhythm that is being typed. -/
structure PatternField where
  text : String
  loop : Rhythm.Loop Float

namespace PatternField

/-- The standard rhythm, as typed. -/
def standard : PatternField :=
  let loop : Rhythm.Loop Float := Rhythm.Loop.standard
  ⟨loop.source, loop⟩

/-- A field that holds a text that compiles. -/
def ofText (text : String) : Except Rhythm.Fault PatternField := do
  return ⟨text, ← Rhythm.compile text⟩

/-- The text on display is not the one that was compiled. -/
def isPending (f : PatternField) : Bool := f.text != f.loop.source

/-- Replaces the text, and the loop if the text compiles; otherwise says why
it does not. -/
def edit (f : PatternField) (text : String) : PatternField × Option Rhythm.Fault :=
  match Rhythm.compile text with
  | .ok loop => (⟨text, loop⟩, none)
  | .error fault => ({ f with text := text }, some fault)

end PatternField

/-- The shape of a value. -/
inductive Kind where
  | number
  | count
  | toggle
  | counts
  | pattern
  deriving DecidableEq

def Kind.label : Kind → String
  | .number => "number"
  | .count => "count"
  | .toggle => "toggle"
  | .counts => "list of counts"
  | .pattern => "rhythm pattern"

/-- What a value of a kind consists of. -/
@[reducible] def Kind.Carrier : Kind → Type
  | .number => Float
  | .count => UInt32
  | .toggle => Bool
  | .counts => List UInt32
  | .pattern => PatternField

/-- A value together with its kind. -/
structure Value where
  kind : Kind
  data : kind.Carrier

-- ================================================================ text

def toggleText (on : Bool) : String := if on then "true" else "false"

/-- The text of a value. -/
def Value.text : Value → String
  | ⟨.number, x⟩ => Decimal.plain.text x
  | ⟨.count, n⟩ => toString n.toNat
  | ⟨.toggle, on⟩ => toggleText on
  | ⟨.counts, ns⟩ => ",".intercalate (ns.map fun n => toString n.toNat)
  | ⟨.pattern, field⟩ => field.text

/-- Why a text is no value of a kind. -/
inductive TextFault where
  | number (fault : Decimal.NumberFault)
  | count (fault : Decimal.WholeFault)
  | toggle (text : String)
  /-- One piece of a list is no count. -/
  | counts (piece : String) (fault : Decimal.WholeFault)
  | pattern (fault : Rhythm.Fault)
  deriving DecidableEq

def TextFault.message : TextFault → String
  | .number fault => fault.message
  | .count fault => fault.message
  | .toggle text => s!"'{text}' is not on or off"
  | .counts piece fault => s!"'{piece}': " ++ fault.message
  | .pattern fault => fault.message

-- ============================================================= reading

/-- Reads a toggle in any case of its letters. -/
def readToggle (text : String) : Option Bool :=
  let word := text.map Char.toLower
  if word = "true" ∨ word = "on" ∨ word = "yes" ∨ word = "1" then some true
  else if word = "false" ∨ word = "off" ∨ word = "no" ∨ word = "0" then some false
  else none

/-- What stands between two counts of a list. -/
def isSeparator (c : Char) : Bool := c == ',' || Text.isBlank c

/-- The pieces of a list of counts: brackets at its ends are dropped and
empty pieces left out. -/
def countPieces (cs : List Char) : List (List Char) :=
  let inner := Text.dropEndWhile (· == ']') (cs.dropWhile (· == '['))
  (Text.splitChars isSeparator inner).filter (· ≠ [])

def readPiece (piece : List Char) : Except TextFault UInt32 :=
  match Decimal.readWholeChars Decimal.limit32 piece with
  | .ok n => .ok (UInt32.ofNat n)
  | .error fault => .error (.counts (String.ofList piece) fault)

/-- Reads a value of a kind. White space around the text does not count. -/
def Value.read (kind : Kind) (text : String) : Except TextFault Value :=
  let text := Text.trim text
  match kind with
  | .number => match Decimal.readNumber text with
    | .ok x => .ok ⟨.number, x⟩
    | .error fault => .error (.number fault)
  | .count => match Decimal.readCount text with
    | .ok n => .ok ⟨.count, n⟩
    | .error fault => .error (.count fault)
  | .toggle => match readToggle text with
    | some on => .ok ⟨.toggle, on⟩
    | none => .error (.toggle text)
  | .counts => match (countPieces text.toList).mapM readPiece with
    | .ok ns => .ok ⟨.counts, ns⟩
    | .error fault => .error fault
  | .pattern => match PatternField.ofText text with
    | .ok field => .ok ⟨.pattern, field⟩
    | .error fault => .error (.pattern fault)

end Metrograph.Config
