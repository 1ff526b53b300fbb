/-
Amplitude readings along the beat axis, the bars that show them, and the
readings that were polled and not drawn yet. These wait in a buffer that is
bounded: when a batch does not fit, the oldest make room and are counted.
-/
import Metrograph.Grid.Layout

namespace Metrograph.Waveform

/-- One amplitude at a musical position. -/
structure Sample (α : Type) where
  beat : α
  amplitude : α

/-- A sample that can be drawn. -/
def Sample.isFinite {α : Type} [Scalar α] (s : Sample α) : Bool :=
  Scalar.isFinite s.beat && Scalar.isFinite s.amplitude

/-- Whether a bar stands in its own row or repeats one in a margin. -/
inductive BarKind where
  | home
  | marginCopy
  deriving DecidableEq

/-- One bar of the waveform. -/
structure Bar (α : Type) where
  position : Grid.Position α
  /-- The column of pixels the bar fills. -/
  column : Int
  /-- The level, in the unit interval. -/
  level : α
  kind : BarKind

-- ============================================================== buffers

/-- A bounded queue that drops from its old end. -/
structure Buffer (β : Type) where
  /-- The most samples held, at least one. -/
  capacity : Nat
  /-- Oldest first. -/
  samples : List β
  /-- How many samples were ever dropped. -/
  dropped : Nat

namespace Buffer

variable {β : Type}

def ofCapacity (capacity : Nat) : Buffer β := ⟨max 1 capacity, [], 0⟩

/-- How many samples would have to go for a batch to fit. -/
def overflow (b : Buffer β) (batch : List β) : Nat :=
  b.samples.length + batch.length - b.capacity

/-- Appends a batch. -/
def push (b : Buffer β) (batch : List β) : Buffer β :=
  let excess := b.overflow batch
  { b with samples := (b.samples ++ batch).drop excess, dropped := b.dropped + excess }

/-- Takes everything out, oldest first. -/
def drain (b : Buffer β) : List β × Buffer β := (b.samples, { b with samples := [] })

end Buffer

end Metrograph.Waveform
