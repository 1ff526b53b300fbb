/-
Filling rectangles without leaving the pixels.

# Slices

The library writes to a pixel only if there is such a pixel, so a place
beyond the end would go unnoticed. Here the same filling is written for
pixels of which nothing is promised (`Raster`): each line of a rectangle is
a slice that has to lie among the pixels, and one that does not ends the
filling without a result (`fillSlice?`). Along each axis a rectangle is
clipped to the canvas, and a line of the canvas with all its columns lies
among the pixels, so every slice does (`fillLines?_eq`).

# Edits

A canvas is made, resized and filled. An edit of a raster that is a canvas
has a result, and it is the canvas after the edit (`edit?_raster`). Hence
no sequence of edits ever reaches for a pixel that is not there, and after
each of them there are as many pixels as the width and the height ask for
(`fillRect_exact`).
-/
import Metrograph.Proofs.Canvas.Pixels

namespace Metrograph

variable {α : Type} [Scalar α]

namespace Canvas

-- ================================================================= slices

/-- Colours the places `[start, stop)`, all of which there have to be. -/
def fillSlice? (color : Rgb) (start stop : Nat) (pixels : Array Rgb) : Option (Array Rgb) :=
  if start ≤ stop ∧ stop ≤ pixels.size then some (fillRun color start (stop - start) pixels)
  else none

/-- Colours the columns `[left, right)` of some lines, each as one slice. -/
def fillLines? (color : Rgb) (width left right : Nat) :
    (top lines : Nat) → Array Rgb → Option (Array Rgb)
  | _, 0, pixels => some pixels
  | top, lines + 1, pixels => do
    let pixels ← fillSlice? color (top * width + left) (top * width + right) pixels
    fillLines? color width left right (top + 1) lines pixels

/-- A slice in bounds is filled as a run is. -/
theorem fillSlice?_eq (color : Rgb) {start stop : Nat} {pixels : Array Rgb} (ordered : start ≤ stop)
    (inside : stop ≤ pixels.size) :
    fillSlice? color start stop pixels = some (fillRun color start (stop - start) pixels) :=
  if_pos ⟨ordered, inside⟩

/-- Columns of the canvas in lines of the canvas are there. -/
theorem fillLines?_eq (color : Rgb) {width left right : Nat} (ordered : left ≤ right)
    (inside : right ≤ width) (top lines : Nat) {pixels : Array Rgb}
    (enough : (top + lines) * width ≤ pixels.size) :
    fillLines? color width left right top lines pixels
      = some (fillRows color width (right - left) (top * width + left) lines pixels) := by
  induction lines generalizing top pixels with
  | zero => rfl
  | succ n ih =>
      have line : top * width + right ≤ pixels.size := by
        have below := Nat.mul_le_mul_right width (Nat.le_add_left (top + 1) n)
        have rest : n + (top + 1) = top + (n + 1) := by omega
        rw [rest, Nat.succ_mul] at below
        omega
      have next : top * width + left + width = (top + 1) * width + left := by
        rw [Nat.succ_mul]
        omega
      have count : top * width + right - (top * width + left) = right - left := by omega
      have filled : fillSlice? color (top * width + left) (top * width + right) pixels
          = some (fillRun color (top * width + left) (right - left) pixels) := by
        rw [fillSlice?_eq color (Nat.add_le_add_left ordered _) line, count]
      rw [fillLines?, filled, fillRows, next]
      refine ih (top + 1) ?_
      have rest : top + 1 + n = top + (n + 1) := by omega
      rwa [size_fillRun, rest]

end Canvas

-- ================================================================ rasters

/-- Pixels as they lie one after the other. Nothing is promised about their
number. -/
structure Raster where
  width : Nat
  height : Nat
  pixels : Array Rgb

/-- What is done to a canvas. -/
inductive Edit (α : Type) where
  | resize (width height : Nat)
  | fill (x y width height : α) (color : Rgb)

namespace Raster

/-- Black pixels. -/
def blank (width height : Nat) : Raster :=
  ⟨width, height, Array.replicate (width * height) Rgb.black⟩

/-- Colours the pixels that a rectangle reaches into, line by line. -/
def fillRect? (r : Raster) (x y width height : α) (color : Rgb) : Option Raster :=
  match Canvas.pixelRange x width r.width, Canvas.pixelRange y height r.height with
  | some (left, right), some (top, bottom) =>
    (Canvas.fillLines? color r.width left right top (bottom - top) r.pixels).map fun pixels =>
      { r with pixels := pixels }
  | _, _ => some r

/-- An edit that fails where it would leave the memory. -/
def edit? (r : Raster) : Edit α → Option Raster
  | .resize width height => some (blank width height)
  | .fill x y width height color => r.fillRect? x y width height color

/-- One edit after the other, as long as they have a result. -/
def editAll? (r : Raster) (edits : List (Edit α)) : Option Raster := edits.foldlM edit? r

end Raster

namespace Canvas

/-- The pixels of a canvas as they lie. -/
def raster (c : Canvas) : Raster := ⟨c.width, c.height, c.pixels⟩

/-- An edit that does nothing where the other one fails. -/
def edit (c : Canvas) : Edit α → Canvas
  | .resize width height => blank width height
  | .fill x y width height color => c.fillRect x y width height color

/-- A canvas after some edits. -/
def editAll (c : Canvas) (edits : List (Edit α)) : Canvas := edits.foldl edit c

/-- Filling a rectangle of a canvas slice by slice succeeds, and fills it. -/
theorem fillRect?_raster (c : Canvas) (x y width height : α) (color : Rgb) :
    c.raster.fillRect? x y width height color = some (c.fillRect x y width height color).raster := by
  unfold Raster.fillRect? fillRect raster
  dsimp only
  cases columns : pixelRange x width c.width with
  | none => rfl
  | some range =>
    obtain ⟨left, right⟩ := range
    cases lines : pixelRange y height c.height with
    | none => rfl
    | some range =>
      obtain ⟨top, bottom⟩ := range
      obtain ⟨ordered, inside, -⟩ := pixelRange_eq columns
      obtain ⟨below, within, -⟩ := pixelRange_eq lines
      have enough : (top + (bottom - top)) * c.width ≤ c.pixels.size := by
        rw [Nat.add_sub_cancel' (Nat.le_of_lt below), c.size_pixels, Nat.mul_comm c.width]
        exact Nat.mul_le_mul_right c.width within
      dsimp only
      rw [fillLines?_eq color (Nat.le_of_lt ordered) inside top _ enough]
      rfl

/-- No edit leaves the memory. -/
theorem edit?_raster (c : Canvas) (edit : Edit α) :
    c.raster.edit? edit = some (c.edit edit).raster := by
  cases edit with
  | resize width height => rfl
  | fill x y width height color => exact c.fillRect?_raster x y width height color

/-- No edit of a sequence fails. -/
theorem editAll?_raster (c : Canvas) (edits : List (Edit α)) :
    c.raster.editAll? edits = some (c.editAll edits).raster := by
  induction edits generalizing c with
  | nil => rfl
  | cons edit rest ih =>
      unfold Raster.editAll?
      rw [List.foldlM_cons, edit?_raster]
      exact ih (c.edit edit)

-- =============================================================== the pixels

theorem pixel?_eq_none {c : Canvas} {i j : Nat} (outside : ¬ (i < c.width ∧ j < c.height)) :
    c.pixel? i j = none :=
  if_neg outside

/-- Whatever is done to a canvas, no slice that is filled leaves the pixels, and
there are as many pixels as the width and the height ask for. Filling a
rectangle, finite or not, colours the pixels of the canvas that lie from the
whole number below each coordinate up to the one above the sum of coordinate
and length, if these are finite and the lengths positive, and no others. -/
theorem fillRect_exact :
    (∀ (width height : Nat) (edits : List (Edit Float)),
      (Raster.blank width height).editAll? edits = some ((blank width height).editAll edits).raster
        ∧ ((blank width height).editAll edits).pixels.size
          = ((blank width height).editAll edits).width
            * ((blank width height).editAll edits).height)
    ∧ ∀ (c : Canvas) (x y width height : Float) (color : Rgb),
      c.raster.fillRect? x y width height color
          = some (c.fillRect x y width height color).raster
        ∧ ∀ i j : Nat, (c.fillRect x y width height color).pixel? i j
          = if (i < c.width ∧ j < c.height)
              ∧ (x.isFinite ∧ y.isFinite ∧ width.isFinite ∧ height.isFinite)
              ∧ (Scalar.zero < width ∧ Scalar.zero < height)
              ∧ (Scalar.floor x ≤ i ∧ i < Scalar.ceil (x + width))
              ∧ (Scalar.floor y ≤ j ∧ j < Scalar.ceil (y + height))
            then some color else c.pixel? i j := by
  refine ⟨fun width height edits => ?_, fun c x y width height color => ?_⟩
  · exact ⟨editAll?_raster (blank width height) edits, size_pixels _⟩
  · refine ⟨c.fillRect?_raster x y width height color, fun i j => ?_⟩
    by_cases on : i < c.width ∧ j < c.height
    · have reached : Reaches x width i ∧ Reaches y height j
          ↔ (i < c.width ∧ j < c.height)
            ∧ (x.isFinite ∧ y.isFinite ∧ width.isFinite ∧ height.isFinite)
            ∧ (Scalar.zero < width ∧ Scalar.zero < height)
            ∧ (Scalar.floor x ≤ i ∧ i < Scalar.ceil (x + width))
            ∧ (Scalar.floor y ≤ j ∧ j < Scalar.ceil (y + height)) := by
        constructor
        · rintro ⟨⟨⟨fx, fw, pw⟩, columns⟩, ⟨fy, fh, ph⟩, lines⟩
          exact ⟨on, ⟨fx, fy, fw, fh⟩, ⟨pw, ph⟩, columns, lines⟩
        · rintro ⟨-, ⟨fx, fy, fw, fh⟩, ⟨pw, ph⟩, columns, lines⟩
          exact ⟨⟨⟨fx, fw, pw⟩, columns⟩, ⟨fy, fh, ph⟩, lines⟩
      rw [pixel?_fillRect c x y width height color on.1 on.2]
      simp only [reached]
    · rw [if_neg fun inside => on inside.1, pixel?_eq_none on, pixel?_eq_none]
      rwa [width_fillRect, height_fillRect]

end Canvas

end Metrograph
