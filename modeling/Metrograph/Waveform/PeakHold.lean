/-
From samples to bars: the peak of every run of samples in one column.

Consecutive samples that fall into the same column of the same row belong
to one run. A run stays open until a sample leaves it, also across
batches; then it becomes one bar at the place of its first sample, as
loud as its loudest sample, and if the grid has a margin two more that
repeat the bar on the rows below and above. Only a new layout gives up an
open run.
-/
import Metrograph.Waveform.Buffer

namespace Metrograph.Waveform

variable {α : Type} [Scalar α]

/-- The run that is still open. -/
structure Run (α : Type) where
  row : Nat
  column : Int
  /-- The beat of its first sample. -/
  beat : α
  /-- The largest magnitude in it so far. -/
  peak : α

/-- A peak-hold downsampler. -/
structure PeakHold (α : Type) [Scalar α] where
  layout : Grid.Layout α
  gain : α
  current : Option (Run α)

namespace PeakHold

/-- A downsampler that has seen nothing. -/
def ofLayout (layout : Grid.Layout α) (gain : α) : PeakHold α := ⟨layout, gain, none⟩

/-- Draws on another layout from now on; the open run has no place on it. -/
def withLayout (p : PeakHold α) (layout : Grid.Layout α) : PeakHold α :=
  { p with layout := layout, current := none }

def withGain (p : PeakHold α) (gain : α) : PeakHold α := { p with gain := gain }

/-- The bar of a level at a beat, `offset` rows below the beat's own. -/
def barAt (p : PeakHold α) (beat level : α) (kind : BarKind) (offset : Int) : Bar α :=
  let position := p.layout.position beat offset
  ⟨position, position.column, level, kind⟩

/-- The bars of a finished run. -/
def barsOf (p : PeakHold α) (run : Run α) : List (Bar α) :=
  let level := Scalar.clampUnit (run.peak * p.gain)
  let copies := if Scalar.zero < p.layout.margin then [1, -1] else []
  p.barAt run.beat level .home 0 :: copies.map (p.barAt run.beat level .marginCopy)

/-- Takes a sample in: the bars of the run it ends, and the run it belongs
to. -/
def take (p : PeakHold α) (s : Sample α) : List (Bar α) × PeakHold α :=
  if s.isFinite then
    let home := p.layout.home s.beat
    let loudness := Scalar.magnitude s.amplitude
    let opened : Run α := ⟨home.row, home.column, s.beat, Scalar.larger Scalar.zero loudness⟩
    match p.current with
    | none => ([], { p with current := some opened })
    | some run =>
      if run.row = home.row ∧ run.column = home.column then
        ([], { p with current := some { run with peak := Scalar.larger run.peak loudness } })
      else (p.barsOf run, { p with current := some opened })
  else ([], p)

/-- Takes a batch of samples in, one after another. -/
def ingest (p : PeakHold α) (samples : List (Sample α)) : List (Bar α) × PeakHold α :=
  let (bars, p) := samples.foldl
    (fun (bars, p) s =>
      let (more, p) := PeakHold.take p s
      (bars ++ more, p))
    ((#[] : Array (Bar α)), p)
  (bars.toList, p)

end PeakHold

end Metrograph.Waveform
