/-
Faults field by field, as a command that fails reports them: the name of
the cause, then its fields with texts in quotation marks.
-/
import Metrograph.Config.Fault
import Metrograph.Engine.AudioEngine
import Metrograph.Text.Quoted

namespace Metrograph.CommandLine

open Text (quoted)

/-- A cause with named fields. -/
def dumpFields (cause : String) (fields : List (String × String)) : String :=
  cause ++ " \x7b " ++ ", ".intercalate (fields.map fun (name, value) => name ++ ": " ++ value) ++
    " \x7d"

/-- A cause with one field without a name. -/
def dumpSingle (cause value : String) : String := cause ++ "(" ++ value ++ ")"

def dumpNumber (x : Float) : String := Decimal.dumped.text x

def dumpRhythm : Rhythm.Fault → String
  | .unreadable m => dumpFields "Syntax"
    [("column", toString m.column), ("message", quoted m.message), ("context", quoted m.context)]
  | .count text => dumpSingle "Count" (quoted text)
  | .notPositive what text =>
    dumpFields "NonPositive" [("what", quoted what.label), ("value", quoted text)]
  | .spanTooShort text => dumpSingle "SpanTooShort" (quoted text)
  | .noHits => "NoHits"
  | .tooManyNotes notes => dumpSingle "TooManyNotes" (toString notes)

/-- The size of a canvas. -/
def dumpSize (cause : String) (width height : Nat) : String :=
  dumpFields cause [("width", toString width), ("height", toString height)]

def dumpGrid : Grid.Fault Float → String
  | .noRows => "NoRows"
  | .emptyRow row => dumpSingle "EmptyRow" (toString row)
  | .invalidMargin margin => dumpSingle "InvalidMargin" (dumpNumber margin)
  | .emptyCanvas width height => dumpSize "EmptyCanvas" width height
  | .canvasTooLarge width height => dumpSize "CanvasTooLarge" width height

def dumpWhole (f : Decimal.WholeFault) : String :=
  let kind := match f with
    | .empty => "Empty"
    | .invalidDigit => "InvalidDigit"
    | .tooLarge => "PosOverflow"
  dumpFields "ParseIntError" [("kind", kind)]

def dumpDuration : Config.DurationFault → String
  | .number fault => dumpSingle "ParseInt" (dumpWhole fault)
  | .unit => "Format"
  | .tooLarge => "Overflow"
  | .zero => "Zero"

def dumpKind : Config.Kind → String
  | .number => "Number"
  | .count => "Count"
  | .toggle => "Toggle"
  | .counts => "Counts"
  | .pattern => "Pattern"

def dumpConfig : Config.Fault → String
  | .load => "Load"
  | .duration field value reason => dumpFields "Duration"
    [("field", quoted field), ("value", quoted value), ("reason", quoted reason.message)]
  | .unknownKey name => dumpSingle "UnknownKey" (quoted name)
  | .typeMismatch key found => dumpFields "TypeMismatch"
    [("key", quoted key.name), ("expected", dumpKind key.kind), ("found", dumpKind found)]
  | .notFinite key value =>
    dumpFields "NotFinite" [("key", quoted key.name), ("value", dumpNumber value)]
  | .invalidText key text reason => dumpFields "InvalidText"
    [("key", quoted key.name), ("text", quoted text), ("reason", quoted reason.message)]
  | .pattern key reason =>
    dumpFields "Pattern" [("key", quoted key.name), ("source", dumpRhythm reason)]
  | .layout reason => dumpSingle "Layout" (dumpGrid reason)

def dumpEngine : Engine.Fault → String
  | .unknownEngine name => dumpSingle "UnknownEngine" (quoted name)
  | .unreadableFile file => dumpFields "AudioFile"
    [("path", quoted file), ("reason", quoted "not a readable file")]
  | .unavailable engine call =>
    dumpSingle "Unavailable" (quoted (engine ++ " rejected " ++ call))

end Metrograph.CommandLine
