/-
The engines that can be had by name.
-/
import Metrograph.Engine.Recorder
import Metrograph.Engine.Simulated

namespace Metrograph

/-- The engines that a program can be run with. -/
inductive Engine where
  | recorder (r : Engine.Recorder)
  | simulated (e : Engine.Simulated)

namespace Engine

/-- A source of noise: numbers spread evenly over `[-1, 1]`, each from the mixed
bits of its place. -/
def noise (place : Nat) : Float :=
  let spread : UInt64 := place.toUInt64 * 0x9e3779b97f4a7c15 + 0x62656174
  let mixed := (spread ^^^ (spread >>> 30)) * 0xbf58476d1ce4e5b9
  Scalar.ofInt ((mixed >>> 32).toNat + Word.lowest 31) / Scalar.ofNat (Word.count 31)

/-- The engine of a name. Every name that begins with `mock` is that of a
recorder. -/
def named (name : String) (now : Nat) (readable : List String) : Except Fault Engine :=
  if "mock".isPrefixOf name then .ok (.recorder (.standIn name))
  else if name = "simulated" then .ok (.simulated (.start noise now readable))
  else .error (.unknownEngine name)

def title : Engine → String
  | recorder r => r.title
  | simulated _ => "Simulated"

/-- The reply of one kind of engine as that of any. -/
def Reply.map {ε δ : Type} (wrap : ε → δ) (r : Reply ε) : Reply δ :=
  ⟨r.fault?, wrap r.engine, r.notices⟩

instance : AudioEngine Engine where
  poll := fun now e => match e with
    | recorder r => (AudioEngine.poll now r).map id recorder
    | simulated s => (AudioEngine.poll now s).map id simulated
  call := fun c e => match e with
    | recorder r => (AudioEngine.call c r).map recorder
    | simulated s => (AudioEngine.call c s).map simulated
  log := fun e => match e with
    | recorder r => r.log
    | simulated s => s.log

end Engine

end Metrograph
