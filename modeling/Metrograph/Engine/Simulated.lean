/-
An engine that makes its signal up. It accepts every configuration, plays
any file that can be read, and publishes what it was told.
-/
import Metrograph.Engine.AudioEngine
import Metrograph.Engine.Simulation

namespace Metrograph.Engine

/-- An engine that makes its samples itself. -/
structure Simulated where
  config : Wire.Config Float
  signal : Simulation Float
  /-- Samples of the loop recording buffer. -/
  loopBufferSize : Nat
  audioFile? : Option String
  /-- The files that can be read. -/
  readable : List String
  log : Log

namespace Simulated

/-- An engine as it begins. -/
def start (noise : Nat → Float) (now : Nat) (readable : List String) : Simulated where
  config := .standard
  signal := .start noise now
  loopBufferSize := Wire.Config.standard.loopBufferSize Simulation.sampleRate
  audioFile? := none
  readable := readable
  log := .empty

/-- Without the visual monitor the signal runs on unseen. -/
def poll (now : Nat) (e : Simulated) : List (Waveform.Sample Float) × Simulated :=
  let (samples, signal) := e.signal.poll e.config now
  (if e.config.visualMonitorOn then samples else [], { e with signal := signal })

-- ======================================================= configuration

/-- Whether a loop buffer made for one configuration does for another. -/
def sameLoopBuffer (a b : Wire.Config Float) : Bool :=
  Scalar.same a.bpm b.bpm && Scalar.same a.beatsToLoop b.beatsToLoop &&
    a.bufferCompensation == b.bufferCompensation

/-- The line about a new configuration. -/
def configLine (c : Wire.Config Float) : String :=
  let click := if c.clickOn then "on" else "off"
  s!"set_config: bpm {Decimal.plain.text c.bpm}, " ++
    s!"beats_to_loop {Decimal.plain.text c.beatsToLoop}, click {click}"

/-- Takes a configuration over and publishes what changes with it. -/
def configure (c : Wire.Config Float) (e : Simulated) : Reply Simulated :=
  let resized := !sameLoopBuffer e.config c
  let size := if resized then c.loopBufferSize Simulation.sampleRate else e.loopBufferSize
  let sizeLine := if resized then [s!"loop buffer size: {size}"] else []
  let playLine := match e.audioFile? with
    | some file => if c.playFile then [s!"playing file: {file}"] else []
    | none => []
  let event : LogEvent := ⟨configLine c :: sizeLine ++ playLine⟩
  ⟨none, { e with config := c, loopBufferSize := size, log := e.log.publish event },
    if resized then [.loopBufferUpdated] else []⟩

-- =============================================================== calls

def loadFile (file : String) (e : Simulated) : Reply Simulated :=
  if file ∈ e.readable then
    ⟨none, { e with audioFile? := some file, log := e.log.publish ⟨[s!"audio file: {file}"]⟩ },
      [.audioFileSelected]⟩
  else .refuse e (.unreadableFile file)

def call : Command → Simulated → Reply Simulated
  | .setConfig c, e => e.configure c
  | .resetBeat, e => ⟨none, { e with signal := e.signal.resetBeat }, [.resettingBeat]⟩
  | .loadFile file, e => e.loadFile file

instance : AudioEngine Simulated where
  poll := fun now e =>
    let (samples, e) := e.poll now
    (.ok samples, e)
  call := call
  log := log

end Simulated

end Metrograph.Engine
