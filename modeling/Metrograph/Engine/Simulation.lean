/-
A signal made up sample by sample: a floor of noise, and a burst that dies
away whenever the beat counter crosses a note of the click rhythm. Where
the noise comes from is left open: a signal begins with a source of
numbers in `[-1, 1]` and takes one of them for each sample.

Samples are due at a fixed rate. A poll makes as many as fit into the time
since the last one and leaves the rest of the time to the next poll; after
a long silence only the last second is made up for.
-/
import Metrograph.Waveform.Buffer
import Metrograph.Wire.Config

namespace Metrograph.Engine

/-- Where a made-up signal stands. -/
structure Simulation (α : Type) where
  /-- The beat of the last sample. -/
  beat : α
  /-- The time, in nanoseconds, up to which samples were made. -/
  madeUpTo : Nat
  /-- The running number of the note that was last at or before the beat. -/
  lastNote : Option Int
  /-- How many samples of a burst are still to come. -/
  burstLeft : Nat
  /-- The numbers of the source of noise, one after another. -/
  noise : Nat → α
  /-- How many of them have been taken. -/
  taken : Nat

namespace Simulation

variable {α : Type} [Scalar α]

/-- Frames of audio in a second. -/
def sampleRate : α := Scalar.ofNat 44100

/-- Seconds from one sample to the next: one in 64 frames of audio is
reported. -/
def period : α := Scalar.ofNat 64 / sampleRate

/-- Samples in a burst. -/
def burstLength : Nat := 24

/-- The loudest noise at an input gain of one. -/
def noiseLevel : α := Scalar.ofDecimal 2 2

/-- Nanoseconds in a second, which is also the most a poll makes up for. -/
def second : Nat := 1000000000

/-- A signal that begins. -/
def start (noise : Nat → α) (now : Nat) : Simulation α := ⟨Scalar.zero, now, none, 0, noise, 0⟩

/-- Sets the beat counter back. -/
def resetBeat (s : Simulation α) : Simulation α :=
  { s with beat := Scalar.zero, lastNote := none, burstLeft := 0 }

-- ============================================================= samples

/-- Moves the beat counter; crossing a note begins a burst if the click is
on. -/
def advance (config : Wire.Config α) (step : α) (s : Simulation α) : Simulation α :=
  let beat := s.beat + step
  let note := config.audioSubdivisions.noteIndexAt beat
  if note = s.lastNote then { s with beat := beat }
  else
    let burst := if config.clickOn && note.isSome then burstLength else s.burstLeft
    { s with beat := beat, lastNote := note, burstLeft := burst }

/-- The click when some samples of its burst are still to come: quieter
towards the end, every other one upside down. -/
def click (volume : α) (left : Nat) : α :=
  volume * (Scalar.ofNat left / Scalar.ofNat burstLength) *
    (if left % 2 = 0 then Scalar.one else -Scalar.one)

/-- The next sample, a step further on. -/
def next (config : Wire.Config α) (step : α) (s : Simulation α) :
    Waveform.Sample α × Simulation α :=
  let s := s.advance config step
  let hiss := s.noise s.taken * noiseLevel * config.audioInGain
  let sound := if 0 < s.burstLeft then click config.clickVolume (s.burstLeft - 1) else Scalar.zero
  (⟨s.beat, Scalar.clamp (-Scalar.one) Scalar.one (hiss + sound)⟩,
    { s with taken := s.taken + 1, burstLeft := s.burstLeft - 1 })

/-- The next few samples. -/
def take (config : Wire.Config α) (step : α) :
    Nat → Simulation α → List (Waveform.Sample α) × Simulation α
  | 0, s => ([], s)
  | count + 1, s =>
    let (sample, s) := s.next config step
    let (samples, s) := take config step count s
    (sample :: samples, s)

-- =============================================================== polls

/-- A span of nanoseconds in seconds: whole ones and the rest. -/
def seconds (span : Nat) : α :=
  Scalar.ofNat (span / second) + Scalar.ofNat (span % second) / Scalar.ofNat second

/-- How many samples are due. -/
def due (s : Simulation α) (now : Nat) : Nat :=
  let elapsed : α := seconds (min (now - s.madeUpTo) second)
  (Scalar.clip 0 (Word.largest 32) (Scalar.floor (elapsed / period))).toNat

/-- The nanoseconds that some samples last. -/
def spanOf (α : Type) [Scalar α] (count : Nat) : Nat :=
  (Scalar.nearestEven (Scalar.value (Scalar.ofNat count * period : α) * second)).toNat

/-- The time up to which samples are made when `count` more are. -/
def madeAfter (s : Simulation α) (now count : Nat) : Nat :=
  if second < now - s.madeUpTo then now else s.madeUpTo + spanOf α count

/-- Makes all samples that are due. -/
def poll (config : Wire.Config α) (now : Nat) (s : Simulation α) :
    List (Waveform.Sample α) × Simulation α :=
  let count := s.due now
  if count = 0 then ([], s)
  else
    let step := config.bpm / Scalar.ofNat 60 * period
    take config step count { s with madeUpTo := s.madeAfter now count }

end Simulation

end Metrograph.Engine
