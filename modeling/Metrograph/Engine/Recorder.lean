/-
An engine without audio. It hands out the samples it was given and keeps
every call it accepts; while it is failing it refuses all calls and polls.
-/
import Metrograph.Engine.AudioEngine

namespace Metrograph.Engine

/-- An engine that records its calls and returns the samples that were queued for it. -/
structure Recorder where
  /-- How it signs its refusals. -/
  name : String
  title : String
  /-- Whether it speaks up when it is configured. -/
  announces : Bool
  failing : Bool
  /-- The samples for the next poll. -/
  queued : List (Waveform.Sample Float)
  /-- How many polls it answered. -/
  polls : Nat
  /-- The calls it accepted, oldest first. -/
  calls : List Command
  log : Log

namespace Recorder

/-- A recorder of some name that stands in for an engine. -/
def standIn (name : String) : Recorder :=
  ⟨name, name ++ " (Mock)", true, false, [], 0, [], .empty⟩

/-- A recorder that plays a script. -/
def script : Recorder := ⟨"script", "Script", false, false, [], 0, [], .empty⟩

/-- Adds samples for the next poll. -/
def queue (r : Recorder) (samples : List (Waveform.Sample Float)) : Recorder :=
  { r with queued := r.queued ++ samples }

def poll (r : Recorder) : Except Fault (List (Waveform.Sample Float)) × Recorder :=
  if r.failing then (.error (.unavailable r.name "get_samples"), r)
  else (.ok r.queued, { r with queued := [], polls := r.polls + 1 })

/-- What is to be said about accepting a call. -/
def announcement (r : Recorder) : Command → List Notice
  | .setConfig _ => if r.announces then [.configReceived] else []
  | _ => []

/-- Records a call, unless the engine is failing. -/
def call (r : Recorder) (c : Command) : Reply Recorder :=
  if r.failing then .refuse r (.unavailable r.name c.name)
  else ⟨none, { r with calls := r.calls ++ [c] }, r.announcement c⟩

instance : AudioEngine Recorder := ⟨fun _ => poll, fun c r => r.call c, log⟩

end Recorder

end Metrograph.Engine
