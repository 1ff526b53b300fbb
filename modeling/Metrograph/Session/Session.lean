/-
A session: the configuration, an engine and a canvas, and the samples on
their way from one to the other.

Everything a session does is one of five steps. It handles a request from
the user, delivers a call to the engine, polls the engine for samples,
draws a frame, or reads the engine's log. Which step comes when is a
matter of `Session/Loop.lean`; nothing here knows the time, except that a
poll tells it to the engine.
-/
import Metrograph.Engine.AudioEngine
import Metrograph.Canvas.Painter
import Metrograph.Waveform.Buffer
import Metrograph.Waveform.PeakHold
import Metrograph.Settings

namespace Metrograph

open Config (Key Store)
open Engine (AudioEngine Command)

/-- What a user can ask of a running session. -/
inductive Request where
  /-- Text typed into the field of a key. -/
  | set (key : Key) (text : String)
  | resize (width height : UInt32)
  | resetBeat
  | loadFile (file : String)

/-- Whether a request changes the lines of the overlay. -/
def Request.touchesOverlay : Request → Bool
  | .set .visualSubdivisions _ => true
  | .set .subdivisionOffset _ => true
  | _ => false

/-- What a session counts. -/
structure Stats where
  frames : Nat
  polls : Nat
  /-- Samples drawn. -/
  samples : Nat
  bars : Nat
  /-- Samples that gave way in the buffer. -/
  dropped : Nat
  engineErrors : Nat
  rejectedChanges : Nat
  logEvents : Nat
  deriving DecidableEq

def Stats.zero : Stats := ⟨0, 0, 0, 0, 0, 0, 0, 0⟩

structure Session (ε : Type) where
  /-- The configuration, its layout, and the calls on their way to the engine. -/
  store : Store
  engine : ε
  canvas : Canvas
  timing : Timing
  hold : Waveform.PeakHold Float
  /-- Samples polled and not drawn yet. -/
  pending : Waveform.Buffer (Waveform.Sample Float)
  stats : Stats

namespace Session

variable {ε : Type}

/-- A canvas of the size of a layout with nothing but its background. -/
def freshCanvas (l : Grid.Layout Float) : Canvas :=
  Painter.paintBackground (Canvas.blank l.width l.height) l

/-- A session that has done nothing yet. -/
def ofStore (store : Store) (engine : ε) (timing : Timing) : Session ε where
  store := store
  engine := engine
  canvas := freshCanvas store.layout
  timing := timing
  hold := .ofLayout store.layout store.config.display.visualGain
  pending := .ofCapacity timing.capacity
  stats := .zero

-- ============================================================ requests

/-- Starts the picture over, as a change of the layout or of the overlay
requires. -/
def repaint (s : Session ε) : Session ε := { s with canvas := freshCanvas s.hold.layout }

/-- What a request comes to in the store. -/
def outcome (s : Session ε) : Request → Config.Outcome
  | .set key text => s.store.setText key text
  | .resize width height => s.store.resize width height
  | .resetBeat => ⟨.ok .pushed, s.store.send .resetBeat, s.store.sendNotices .resetBeat⟩
  | .loadFile file =>
    ⟨.ok .pushed, s.store.send (.loadFile file), s.store.sendNotices (.loadFile file)⟩

/-- Handles a request. A new layout is drawn on at once, and so are new
overlay lines, since the old ones would stay otherwise. -/
def handle (s : Session ε) (r : Request) : Session ε × List Notice :=
  let o := s.outcome r
  let s := { s with store := o.store }
  match o.answer with
  | .ok .geometry =>
    (repaint { s with hold := s.hold.withLayout s.store.layout }, o.notices)
  | .ok .stored => (if r.touchesOverlay then s.repaint else s, o.notices)
  | .ok .pushed => (s, o.notices)
  | .error fault =>
    ({ s with stats.rejectedChanges := s.stats.rejectedChanges + 1 },
      o.notices ++ [.changeRefused fault.message])

-- ============================================================== engine

/-- Delivers a call to the engine. -/
def deliver [AudioEngine ε] (s : Session ε) (c : Command) : Session ε × List Notice :=
  let reply := AudioEngine.call c s.engine
  let s := { s with engine := reply.engine }
  match reply.fault? with
  | none => (s, reply.notices)
  | some fault =>
    ({ s with stats.engineErrors := s.stats.engineErrors + 1 },
      reply.notices ++ [.callFailed c.name fault.message])

/-- Takes a batch of samples in. -/
def receive (s : Session ε) (samples : List (Waveform.Sample Float)) :
    Session ε × List Notice :=
  let dropped := s.pending.overflow samples
  ({ s with
      pending := s.pending.push samples
      stats.polls := s.stats.polls + 1
      stats.dropped := s.stats.dropped + dropped },
    if dropped = 0 then [] else [.samplesDropped dropped])

/-- Polls the engine for samples. -/
def poll [AudioEngine ε] (s : Session ε) (now : Nat) : Session ε × List Notice :=
  let (answer, engine) := AudioEngine.poll now s.engine
  let s := { s with engine := engine }
  match answer with
  | .ok samples => s.receive samples
  | .error fault =>
    ({ s with stats.engineErrors := s.stats.engineErrors + 1 }, [.pollFailed fault.message])

/-- Reads what the engine published since a reader's position. -/
def readLog (s : Session ε) (reading : Engine.Reading) : Session ε × List Notice :=
  ({ s with stats.logEvents := s.stats.logEvents + reading.events.length },
    (if reading.missed = 0 then [] else [.missedLog reading.missed]) ++
      reading.events.map fun e => .engineLog ("\n".intercalate e.message))

-- ============================================================== frames

/-- Draws a frame: the bars of all pending samples, then the overlay over
them. Over a window in which the notes of the overlay have no listing
(`Loop.occurrences?`) the program stays in this frame; here the frame ends
with a bare overlay, so a statement about all runs also speaks of what would
come after. -/
def frame (s : Session ε) : Session ε :=
  let display := s.store.config.display
  let (samples, pending) := s.pending.drain
  let (bars, hold) := (s.hold.withGain display.visualGain).ingest samples
  let canvas := bars.foldl
    (fun canvas bar => Painter.paintBar canvas hold.layout bar display.barColorMode) s.canvas
  { s with
    pending := pending
    hold := hold
    canvas := Painter.paintOverlay canvas hold.layout display.visualSubdivisions.loop
      display.subdivisionOffset
    stats.frames := s.stats.frames + 1
    stats.samples := s.stats.samples + samples.length
    stats.bars := s.stats.bars + bars.length }

end Session

end Metrograph
