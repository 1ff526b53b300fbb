/-
What a session asks of an audio engine: samples, taking calls, and a log
of its work. Time is counted in nanoseconds from the start of the session.

A log keeps its newest events only. A reader remembers how many events
were published before the next one it wants; what was dropped in the
meantime it has missed.
-/
import Metrograph.Engine.Command
import Metrograph.Json.Document
import Metrograph.Notice
import Metrograph.Waveform.Buffer

namespace Metrograph.Engine

-- =============================================================== faults

/-- Why an engine cannot be had or refuses a call. -/
inductive Fault where
  | unknownEngine (name : String)
  /-- A file that cannot be played. -/
  | unreadableFile (file : String)
  /-- The engine takes no calls at the moment. -/
  | unavailable (engine call : String)
  deriving DecidableEq

def Fault.message : Fault → String
  | .unknownEngine name => s!"unknown engine '{name}'"
  | .unreadableFile file => s!"unable to use audio file {file}: not a readable file"
  | .unavailable engine call => s!"engine unavailable: {engine} rejected {call}"

-- ================================================================ logs

/-- One event: a few lines of text. -/
structure LogEvent where
  message : List String
  deriving DecidableEq

/-- An event as a JSON document. -/
def LogEvent.json (e : LogEvent) : Json :=
  .record [("message", .array (e.message.map Json.text))]

/-- The events of an engine. -/
structure Log where
  /-- Whether there will be more. -/
  isOpen : Bool
  /-- How many events were ever published. -/
  published : Nat
  /-- The newest events, oldest first. -/
  retained : List LogEvent

/-- What a reader finds. -/
structure Reading where
  /-- Events that were dropped before they were read. -/
  missed : Nat
  /-- The other new events, oldest first. -/
  events : List LogEvent

namespace Log

/-- The most events a log keeps. -/
def capacity : Nat := 64

/-- A log without events. -/
def empty : Log := ⟨true, 0, []⟩

/-- Publishes an event, unless the log is closed. -/
def publish (l : Log) (e : LogEvent) : Log :=
  if l.isOpen then
    let all := l.retained ++ [e]
    { l with published := l.published + 1, retained := all.drop (all.length - capacity) }
  else l

/-- Closes a log for good. -/
def close (l : Log) : Log := { l with isOpen := false }

/-- What a reader finds that wants the events from a position on. -/
def readFrom (l : Log) (position : Nat) : Reading :=
  let first := l.published - l.retained.length
  ⟨first - position, l.retained.drop (position - first)⟩

end Log

-- ============================================================= engines

/-- What a call comes to. -/
structure Reply (ε : Type) where
  /-- Why the call was refused, if it was. -/
  fault? : Option Fault
  engine : ε
  notices : List Notice

/-- A call that is refused and changes nothing. -/
def Reply.refuse {ε : Type} (engine : ε) (fault : Fault) : Reply ε := ⟨some fault, engine, []⟩

/-- A call that is accepted without a word. -/
def Reply.accept {ε : Type} (engine : ε) : Reply ε := ⟨none, engine, []⟩

/-- What a session asks of an engine: samples, calls and a log. -/
class AudioEngine (ε : Type) where
  /-- Every sample since the last poll. -/
  poll : (now : Nat) → ε → Except Fault (List (Waveform.Sample Float)) × ε
  call : Command → ε → Reply ε
  log : ε → Log

end Metrograph.Engine
