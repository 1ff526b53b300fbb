/-
What a beat grid is asked to look like, and why some of it is refused.

A grid is a stack of rows, each some whole beats long, drawn onto a canvas
of pixels. The margin is how many beats of its neighbours every row
repeats on both sides.
-/
import Metrograph.Scalar
import Metrograph.Decimal.Layout

namespace Metrograph.Grid

/-- The largest width or height of a canvas, in pixels. -/
def maxCanvas : Nat := 16384

/-- The row lengths, margin and canvas size of a grid, as they are asked
for. -/
structure Geometry (α : Type) where
  /-- Beats of each row, from the top. -/
  rows : List Nat
  /-- Beats of overlap drawn on either side of a row. -/
  margin : α
  width : Nat
  height : Nat

/-- Why a geometry cannot be drawn. -/
inductive Fault (α : Type) where
  | noRows
  | emptyRow (row : Nat)
  | invalidMargin (margin : α)
  | emptyCanvas (width height : Nat)
  | canvasTooLarge (width height : Nat)

def Fault.message : Fault Float → String
  | .noRows => "the grid needs at least one row"
  | .emptyRow row => s!"row {row} has no beats"
  | .invalidMargin margin =>
    s!"margin {Decimal.plain.text margin} must be a finite, non-negative number of beats"
  | .emptyCanvas width height => s!"canvas size {width}x{height} has no area"
  | .canvasTooLarge width height =>
    s!"canvas size {width}x{height} is larger than {maxCanvas}x{maxCanvas}"

variable {α : Type} [Scalar α]

/-- The first thing wrong with a geometry: its rows, its margin, then its
canvas. -/
def Geometry.fault? (g : Geometry α) : Option (Fault α) :=
  if g.rows = [] then some .noRows
  else match g.rows.findIdx? (· == 0) with
    | some row => some (.emptyRow row)
    | none =>
      if ¬ Scalar.isFinite g.margin ∨ g.margin < Scalar.zero then some (.invalidMargin g.margin)
      else if g.width = 0 ∨ g.height = 0 then some (.emptyCanvas g.width g.height)
      else if maxCanvas < g.width ∨ maxCanvas < g.height then
        some (.canvasTooLarge g.width g.height)
      else none

end Metrograph.Grid
