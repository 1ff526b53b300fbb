/-
Why settings could not be loaded or a change to the configuration was
refused. A refused change leaves every value as it was, except that the
text of a rhythm that does not compile stays on display.
-/
import Metrograph.Config.Key
import Metrograph.Config.Duration
import Metrograph.Grid.Geometry

namespace Metrograph.Config

inductive Fault where
  /-- A settings file that is missing, unreadable or of the wrong shape. -/
  | load
  | duration (field value : String) (reason : DurationFault)
  | unknownKey (name : String)
  | typeMismatch (key : Key) (found : Kind)
  | notFinite (key : Key) (value : Float)
  | invalidText (key : Key) (text : String) (reason : TextFault)
  | pattern (key : Key) (reason : Rhythm.Fault)
  | layout (reason : Grid.Fault Float)

def Fault.message : Fault → String
  | .load => "Config load/parse error"
  | .duration field value reason => s!"invalid {field} '{value}': " ++ reason.message
  | .unknownKey name => s!"unknown config key '{name}'"
  | .typeMismatch key found =>
    s!"{key.name} expects a {key.kind.label}, not a {found.label}"
  | .notFinite key value => s!"{key.name} must be finite, got {Decimal.plain.text value}"
  | .invalidText key text reason =>
    s!"invalid value '{text}' for {key.name}: " ++ reason.message
  | .pattern key reason => s!"pattern for {key.name} did not compile: " ++ reason.message
  | .layout reason => "rejected grid geometry: " ++ reason.message

/-- The key of a name, which is to be known. -/
def readKey (name : String) : Except Fault Key :=
  match Key.ofName name with
  | some key => .ok key
  | none => .error (.unknownKey name)

end Metrograph.Config
