/-
What the grid looks like: bands for the rows, bars for the waveform, lines
for the rhythm.
-/
import Metrograph.Canvas.Canvas
import Metrograph.Waveform.Buffer
import Metrograph.Rhythm.Loop

namespace Metrograph

namespace Palette

def background : Rgb := ⟨18, 18, 24⟩

def alternateRow : Rgb := ⟨24, 24, 32⟩

def marginShade : Rgb := ⟨40, 34, 28⟩

def bar : Rgb := ⟨90, 200, 250⟩

def marginBar : Rgb := ⟨200, 150, 90⟩

def rowLine : Rgb := ⟨70, 70, 80⟩

def downbeatLine : Rgb := ⟨250, 250, 250⟩

def beatLine : Rgb := ⟨180, 180, 190⟩

def subdivisionLine : Rgb := ⟨110, 110, 120⟩

variable {α : Type} [Scalar α]

/-- A share of the unit interval in 255 steps. -/
def shade (x : α) : UInt8 :=
  UInt8.ofNat (Scalar.clip 0 255 (Scalar.floor (x * Scalar.ofNat 255))).toNat

/-- The colour of a level, from green through yellow to red. -/
def level (value : α) : Rgb :=
  let v := Scalar.clampUnit value
  let red := Scalar.capOne (v * Scalar.ofNat 2)
  let green := Scalar.capOne ((Scalar.one - v) * Scalar.ofNat 2)
  ⟨shade red, shade green, 40⟩

end Palette

namespace Painter

open Grid (Layout)
open Waveform (Bar BarKind)

variable {α : Type} [Scalar α]

/-- The share of a row's height that the loudest bar takes. -/
def barHeight : α := Scalar.ofDecimal 9 1

-- ========================================================== background

/-- The colour of a row without bars at an offset along it. -/
def backgroundAt (l : Layout α) (row : Nat) (x : α) : Rgb :=
  let (start, stop) := l.rowExtent row
  if x < start ∨ stop ≤ x then Palette.marginShade
  else if row % 2 = 1 then Palette.alternateRow
  else Palette.background

/-- Paints the margins of one row and its band between them. -/
def paintRow (c : Canvas) (l : Layout α) (row : Nat) : Canvas :=
  let top := l.rowTop row
  let height := l.rowHeight
  let width : α := Scalar.ofNat c.width
  let (start, stop) := l.rowExtent row
  let c := c.fillRect Scalar.zero top start height Palette.marginShade
  let c := c.fillRect start top (stop - start) height (backgroundAt l row start)
  c.fillRect stop top (width - stop) height Palette.marginShade

/-- Paints all rows, from the top, over whatever was there. -/
def paintBackground (c : Canvas) (l : Layout α) : Canvas :=
  (List.range l.rows).foldl (fun c row => paintRow c l row) (c.clear Palette.background)

-- ================================================================ bars

/-- The colour of a bar. -/
def barColor (bar : Bar α) (byLevel : Bool) : Rgb :=
  match bar.kind with
  | .marginCopy => Palette.marginBar
  | .home => if byLevel then Palette.level bar.level else Palette.bar

/-- Paints a bar around the middle of its row, after clearing what its column
held before. -/
def paintBar (c : Canvas) (l : Layout α) (bar : Bar α) (byLevel : Bool) : Canvas :=
  let row := bar.position.row
  let x : α := Scalar.ofInt bar.column
  let top := l.rowTop row
  let height := l.rowHeight
  let c := c.fillRect x top Scalar.one height (backgroundAt l row x)
  let half := bar.level * height * barHeight / Scalar.ofNat 2
  let middle := top + height / Scalar.ofNat 2
  c.fillRect x (middle - half) Scalar.one (half * Scalar.ofNat 2) (barColor bar byLevel)

-- ============================================================= overlay

/-- The colour of a note's line. -/
def lineColor (note : Rhythm.Note α) : Rgb :=
  if note.hasTag Rhythm.Position.downbeat.tag then Palette.downbeatLine
  else if note.hasTag Rhythm.Position.beat.tag then Palette.beatLine
  else Palette.subdivisionLine

/-- Paints a line along the top of every row but the first. -/
def paintRowLines (c : Canvas) (l : Layout α) : Canvas :=
  let width : α := Scalar.ofNat c.width
  (List.range (l.rows - 1)).foldl
    (fun c row => c.fillRect Scalar.zero (l.rowTop (row + 1)) width Scalar.one Palette.rowLine) c

/-- Whether the grid has a column of pixels for every line of a loop. -/
def overlayFits (c : Canvas) (l : Layout α) (loop : Rhythm.Loop α) : Bool :=
  let lines : α := Scalar.ofNat loop.notes.length * l.window / loop.length
  decide (lines ≤ Scalar.ofNat c.width * Scalar.ofNat l.rows)

/-- How many rows below its own a line is drawn: on its own row, and with a
margin on the rows below and above. -/
def rowOffsets (l : Layout α) : List Int := if Scalar.zero < l.margin then [0, 1, -1] else [0]

/-- Paints one line of a loop at a beat. -/
def paintLine (c : Canvas) (l : Layout α) (beat : α) (color : Rgb) (offset : Int) : Canvas :=
  let position := l.position beat offset
  c.fillRect (Scalar.ofInt position.column) (l.rowTop position.row) Scalar.one l.rowHeight color

/-- Paints the lines between rows and a line for every note in the window,
shifted by some beats. A loop too dense for a line in every column has
none, and neither has one without a listing (`Loop.occurrences?`). -/
def paintOverlay (c : Canvas) (l : Layout α) (loop : Rhythm.Loop α) (offset : α) : Canvas :=
  let c := paintRowLines c l
  if overlayFits c l loop then
    (loop.occurrences (-offset) (l.window - offset)).foldl
      (fun c (beat, note) =>
        (rowOffsets l).foldl (fun c k => paintLine c l (beat + offset) (lineColor note) k) c) c
  else c

end Painter

end Metrograph
