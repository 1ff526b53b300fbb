/-
The beat grid: which row a beat lands in and where along the row it is
drawn.

The rows laid end to end make a window of beats, and the grid shows every
beat at its place modulo the window. A beat may also be drawn relative to
a row some rows away from its own: it keeps its place in musical time, so
on the row above it trails past the end and on the row below it leads in
before the start. Counting rows wraps around the grid, one window later
or earlier.
-/
import Metrograph.Grid.Geometry

namespace Metrograph.Grid

variable {α : Type} [Scalar α]

/-- A geometry that can be drawn. -/
structure Layout (α : Type) [Scalar α] where
  geometry : Geometry α
  drawable : geometry.fault? = none

/-- Accepts a geometry that can be drawn. -/
def Geometry.layout (g : Geometry α) : Except (Fault α) (Layout α) :=
  match h : g.fault? with
  | none => .ok ⟨g, h⟩
  | some fault => .error fault

-- ================================================================= rows

/-- Where each of some rows starts when the first one starts at a beat, and
where the last one ends. -/
def startsFrom (start : α) : List Nat → List α
  | [] => [start]
  | beats :: rest => start :: startsFrom (start + Scalar.ofNat beats) rest

namespace Layout

/-- Beats of each row, from the top. -/
def rowBeats (l : Layout α) : List Nat := l.geometry.rows

/-- The number of rows. -/
def rows (l : Layout α) : Nat := l.rowBeats.length

def margin (l : Layout α) : α := l.geometry.margin

def width (l : Layout α) : Nat := l.geometry.width

def height (l : Layout α) : Nat := l.geometry.height

/-- The beats at which the rows start, and the length of the window. -/
def starts (l : Layout α) : List α := startsFrom Scalar.zero l.rowBeats

/-- The beats shown before the grid wraps back to its top row. -/
def window (l : Layout α) : α := l.starts.getLastD Scalar.zero

/-- The beat at which a row starts; rows are counted around the grid. -/
def rowStart (l : Layout α) (row : Nat) : α := l.starts.getD (row % l.rows) Scalar.zero

/-- The beats of the longest row. -/
def longestRow (l : Layout α) : Nat := l.rowBeats.foldl max 1

/-- The beats of the shortest row. -/
def shortestRow (l : Layout α) : Nat := l.rowBeats.foldl min (l.rowBeats.headD 1)

/-- The margin covers whole rows, so bars are drawn over one another. -/
def overlaps (l : Layout α) : Bool := decide (Scalar.ofNat l.shortestRow ≤ l.margin)

-- =============================================================== pixels

/-- Pixels along a row for one beat. -/
def pixelsPerBeat (l : Layout α) : α :=
  Scalar.ofNat l.width / (Scalar.ofNat l.longestRow + Scalar.ofNat 2 * l.margin)

/-- Pixels of one row from top to bottom. -/
def rowHeight (l : Layout α) : α := Scalar.ofNat l.height / Scalar.ofNat l.rows

/-- The offset of the top of a row. -/
def rowTop (l : Layout α) (row : Nat) : α := Scalar.ofNat row * l.rowHeight

/-- The offsets at which a row's own beats start and end. -/
def rowExtent (l : Layout α) (row : Nat) : α × α :=
  let start := l.margin * l.pixelsPerBeat
  let beats : α := Scalar.ofNat (l.rowBeats.getD (row % l.rows) 0)
  (start, start + beats * l.pixelsPerBeat)

end Layout

-- ============================================================ positions

/-- Where a beat is drawn. -/
structure Position (α : Type) where
  /-- Pixels from the left edge, outside the canvas for beats repeated in a
  margin that is not drawn. -/
  x : α
  /-- The row, counted from the top. -/
  row : Nat

/-- The whole column of pixels that holds a position. -/
def Position.column (p : Position α) : Int := Scalar.heldFloor p.x

namespace Layout

/-- The place of a beat within the window. A beat without a place counts as
beat zero, and so does one that rounds up to the window's end. -/
def beatInWindow (l : Layout α) (beat : α) : α :=
  let b := if Scalar.isFinite beat then Scalar.wrap beat l.window else Scalar.zero
  if l.window ≤ b then Scalar.zero else b

/-- The row in whose beats a place within the window falls. -/
def homeRow (l : Layout α) (b : α) : Nat :=
  ((l.starts.take l.rows).takeWhile fun start => decide (start ≤ b)).length - 1

/-- Where a beat is drawn on the row `offset` rows below its own. -/
def position (l : Layout α) (beat : α) (offset : Int) : Position α :=
  let b := l.beatInWindow beat
  let target : Int := l.homeRow b + offset
  let row := (target % (l.rows : Int)).toNat
  let turns := target / (l.rows : Int)
  let start := l.rowStart row + Scalar.ofInt turns * l.window
  ⟨(b - start + l.margin) * l.pixelsPerBeat, row⟩

/-- Where a beat is drawn on its own row. -/
def home (l : Layout α) (beat : α) : Position α := l.position beat 0

end Layout

end Metrograph.Grid
