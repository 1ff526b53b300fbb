/-
The engine's configuration in the form that is sent to it.
-/
import Metrograph.Wire.Rhythm
import Metrograph.Config.Config

namespace Metrograph.Wire

/-- Everything the engine is told, in one piece. -/
structure Config (α : Type) where
  audioInGain : α
  audioMonitorOn : Bool
  beatsToLoop : α
  bpm : α
  bufferCompensation : UInt32
  clickOn : Bool
  clickToggle : Bool
  clickVolume : α
  drumOn : Bool
  loopingOn : Bool
  playFile : Bool
  audioSubdivisions : Rhythm α
  visualMonitorOn : Bool

namespace Config

/-- The engine's settings as they are sent: of the click rhythm only the
last loop that compiled. -/
def ofBackend (b : Metrograph.Config.Backend) : Config Float where
  audioInGain := b.audioInGain
  audioMonitorOn := b.audioMonitorOn
  beatsToLoop := b.beatsToLoop
  bpm := b.bpm
  bufferCompensation := b.bufferCompensation
  clickOn := b.clickOn
  clickToggle := b.clickToggle
  clickVolume := b.clickVolume
  drumOn := b.drumOn
  loopingOn := b.loopingOn
  playFile := b.playFile
  audioSubdivisions := Rhythm.ofLoop b.audioSubdivisions.loop
  visualMonitorOn := b.visualMonitorOn

/-- What an engine works with before it is told anything. -/
def standard : Config Float := ofBackend Metrograph.Config.Backend.standard

/-- The samples of the engine's loop recording buffer: two channels of the
beats to loop at the tempo. -/
def loopBufferSize {α : Type} [Scalar α] (c : Config α) (sampleRate : α) : Nat :=
  if c.bpm ≤ Scalar.zero then 0
  else
    let size := c.beatsToLoop * sampleRate * Scalar.ofNat 60 * Scalar.ofNat 2 / c.bpm
    if Scalar.isFinite size ∧ Scalar.zero < size then
      (Scalar.clip 0 (Word.largest 64) (Scalar.floor size)).toNat
    else 0

end Config

end Metrograph.Wire
