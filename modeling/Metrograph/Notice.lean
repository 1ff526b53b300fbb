/-
What the program says about its own work: short notices of three levels,
each with the few fields that a reader may want.
-/
import Metrograph.Grid.Layout

namespace Metrograph

inductive Level where
  | debug
  | info
  | warn
  deriving DecidableEq

def Level.label : Level → String
  | .debug => "DEBUG"
  | .info => "INFO"
  | .warn => "WARN"

/-- The occasions of a notice. -/
inductive Notice where
  /-- The margin of a new layout is as long as a row. -/
  | marginOverlaps
  | geometryChanged
  /-- A setting of the engine changed and its configuration goes out. -/
  | pushing
  /-- Nobody takes commands for the engine any more. -/
  | outboxClosed (command : String)
  | initialValueApplied
  | configReceived
  | loopBufferUpdated
  | resettingBeat
  | audioFileSelected
  | mounted
  | unmounted
  /-- A message the engine published. -/
  | engineLog (text : String)
  | missedLog (missed : Nat)
  | samplesDropped (dropped : Nat)
  | pollFailed (reason : String)
  | changeRefused (reason : String)
  | callFailed (command reason : String)
  deriving DecidableEq

namespace Notice

def level : Notice → Level
  | .marginOverlaps | .outboxClosed _ | .missedLog _ | .samplesDropped _ | .pollFailed _
  | .callFailed _ _ => .warn
  | .pushing | .initialValueApplied | .resettingBeat | .changeRefused _ => .debug
  | _ => .info

def message : Notice → String
  | .marginOverlaps => "Margin is as long as a row; duplicates will overlap"
  | .geometryChanged => "Grid geometry changed."
  | .pushing => "Pushing backend config."
  | .outboxClosed _ => "Engine outbox closed, dropping command."
  | .initialValueApplied => "Applied initial value."
  | .configReceived => "Config received (mock)."
  | .loopBufferUpdated => "Updated loop buffer."
  | .resettingBeat => "Resetting beat."
  | .audioFileSelected => "Audio file selected."
  | .mounted => "Render loop mounted."
  | .unmounted => "Render loop unmounted."
  | .engineLog _ => "Engine log."
  | .missedLog _ => "Missed engine log events."
  | .samplesDropped _ => "Sample buffer full, dropped oldest samples."
  | .pollFailed _ => "Unable to poll engine for samples."
  | .changeRefused _ => "Config change refused."
  | .callFailed _ _ => "Engine call failed."

/-- The fields of a notice, by name. -/
def fields : Notice → List (String × String)
  | .outboxClosed command => [("command", command)]
  | .engineLog text => [("log", text)]
  | .missedLog missed => [("missed", toString missed)]
  | .samplesDropped dropped => [("dropped", toString dropped)]
  | .pollFailed reason => [("err", reason)]
  | .changeRefused reason => [("err", reason)]
  | .callFailed command reason => [("command", command), ("err", reason)]
  | _ => []

/-- A notice on one line: level, message and fields. -/
def line (n : Notice) : String :=
  n.level.label ++ " " ++ n.message ++
    String.join (n.fields.map fun (name, value) => s!" {name}=" ++ value)

/-- What is to be said about a layout when it is made. -/
def ofLayout (l : Grid.Layout Float) : List Notice := if l.overlaps then [.marginOverlaps] else []

end Notice

end Metrograph
