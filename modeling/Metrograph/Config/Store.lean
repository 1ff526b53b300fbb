/-
The live configuration.

Values are read locally. A value that is accepted takes effect at once: a
setting of the engine is followed by the whole configuration on its way to
the engine, a setting of the grid by a new layout. A value is refused if
it is of the wrong kind, not finite, or would leave a grid that cannot be
drawn; then nothing changes. The one exception is a rhythm that does not
compile, whose text stays.
-/
import Metrograph.Config.Fault
import Metrograph.Engine.Command
import Metrograph.Notice

namespace Metrograph.Config

open Engine (Command Outbox)

/-- What an accepted change did besides changing the value. -/
inductive Change where
  /-- Nothing else. -/
  | stored
  /-- The configuration went out to the engine. -/
  | pushed
  /-- The layout was made anew. -/
  | geometry
  deriving DecidableEq

/-- The configuration, the layout it asks for, and what is on its way to the
engine. -/
structure Store where
  config : Config
  layout : Grid.Layout Float
  outbox : Outbox

/-- What a change comes to. -/
structure Outcome where
  answer : Except Fault Change
  store : Store
  notices : List Notice

namespace Store

/-- A store over a configuration whose grid can be drawn. -/
def ofConfig (config : Config) (outbox : Outbox) : Except Fault Store :=
  match config.display.geometry.layout with
  | .ok layout => .ok ⟨config, layout, outbox⟩
  | .error fault => .error (.layout fault)

/-- What a key holds, together with its kind. -/
def value (s : Store) (key : Key) : Value := s.config.value key

/-- What a key holds. -/
def get (s : Store) (key : Key) : key.kind.Carrier := s.config.get key

-- ============================================================= sending

/-- Sends a call to the engine. Whether it arrives is never confirmed. -/
def send (s : Store) (c : Command) : Store := { s with outbox := s.outbox.send c }

/-- What is to be said about sending a call. -/
def sendNotices (s : Store) (c : Command) : List Notice :=
  if s.outbox.isOpen then [] else [.outboxClosed c.name]

/-- The call that tells the engine all its settings. -/
def pushCommand (s : Store) : Command := .setConfig (Wire.Config.ofBackend s.config.backend)

/-- Sends the engine its settings. -/
def push (s : Store) : Store := s.send s.pushCommand

-- ============================================================ changing

/-- A change that is refused. -/
def refuse (s : Store) (fault : Fault) : Outcome := ⟨.error fault, s, []⟩

/-- Follows up a value that was put under a key without changing the grid. -/
def settle (s : Store) (key : Key) : Outcome :=
  match key.side with
  | .backend => ⟨.ok .pushed, s.push, .pushing :: s.sendNotices s.pushCommand⟩
  | .display => ⟨.ok .stored, s, []⟩

/-- Takes over a configuration with another grid, if it can be drawn. -/
def replaceGeometry (s : Store) (next : Config) : Outcome :=
  match next.display.geometry.layout with
  | .ok layout =>
    ⟨.ok .geometry, { s with config := next, layout := layout },
      Notice.ofLayout layout ++ [.geometryChanged]⟩
  | .error fault => s.refuse (.layout fault)

/-- Whether a value of a kind is a number without a place on the number
line. -/
def unplaced : (kind : Kind) → kind.Carrier → Option Float
  | .number, x => if x.isFinite then none else some x
  | _, _ => none

/-- Writes a value of the key's own kind. -/
def set (s : Store) (key : Key) (x : key.kind.Carrier) : Outcome :=
  match unplaced key.kind x with
  | some number => s.refuse (.notFinite key number)
  | none =>
    let next := s.config.put key x
    if key.affectsGeometry then s.replaceGeometry next
    else { s with config := next }.settle key

/-- Writes a value of any kind. -/
def setValue (s : Store) (key : Key) (v : Value) : Outcome :=
  if h : v.kind = key.kind then s.set key (h ▸ v.data)
  else s.refuse (.typeMismatch key v.kind)

/-- Follows up a rhythm that was typed into: the loop that a text compiled
to counts as a change, a text that did not compile only stays on display. -/
def settleEdit (s : Store) (key : Key) : Option Rhythm.Fault → Outcome
  | none => s.settle key
  | some fault => s.refuse (.pattern key fault)

/-- Writes a value given as text. A rhythm is edited in place, so that a text
that does not compile can be typed on. -/
def setText (s : Store) (key : Key) (text : String) : Outcome :=
  match key with
  | .audioSubdivisions =>
    let (field, fault) := s.config.backend.audioSubdivisions.edit text
    { s with config := s.config.put .audioSubdivisions field }.settleEdit .audioSubdivisions fault
  | .visualSubdivisions =>
    let (field, fault) := s.config.display.visualSubdivisions.edit text
    { s with config := s.config.put .visualSubdivisions field }.settleEdit .visualSubdivisions fault
  | key => match Value.read key.kind text with
    | .ok v => s.setValue key v
    | .error fault => s.refuse (.invalidText key text fault)

/-- Changes the width and the height of the canvas together. -/
def resize (s : Store) (width height : UInt32) : Outcome :=
  s.replaceGeometry
    { s.config with
      display.canvasWidth := width
      display.canvasHeight := height }

end Store

end Metrograph.Config
