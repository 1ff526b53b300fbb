/-
Calls to the engine that wait in a queue, and the queue.
-/
import Metrograph.Wire.Config

namespace Metrograph.Engine

/-- One call to the engine. -/
inductive Command where
  | setConfig (config : Wire.Config Float)
  | resetBeat
  | loadFile (file : String)

def Command.name : Command → String
  | .setConfig _ => "set_config"
  | .resetBeat => "reset_beat"
  | .loadFile _ => "set_mp3_buffer"

/-- The calls that are on their way to the engine, oldest first. Once nobody
takes them any more, further calls are lost. -/
structure Outbox where
  isOpen : Bool
  queued : List Command

namespace Outbox

/-- An open queue with nothing in it. -/
def empty : Outbox := ⟨true, []⟩

/-- A queue that nobody takes from. -/
def closed : Outbox := ⟨false, []⟩

/-- Adds a call at the end. -/
def send (o : Outbox) (c : Command) : Outbox :=
  if o.isOpen then { o with queued := o.queued ++ [c] } else o

end Outbox

end Metrograph.Engine
