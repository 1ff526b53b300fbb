/-
A canvas of coloured pixels, row by row from the top left.

Rectangles are given in scalar coordinates. A rectangle touches every
pixel that it reaches into: its fractional edges are widened to whole
pixels, and what lies off the canvas is left out.
-/
import Metrograph.Scalar

namespace Metrograph

/-- A colour by its red, green and blue parts. -/
structure Rgb where
  red : UInt8
  green : UInt8
  blue : UInt8
  deriving DecidableEq

def Rgb.black : Rgb := ⟨0, 0, 0⟩

/-- A rectangle of pixels. -/
structure Canvas where
  width : Nat
  height : Nat
  /-- The pixels of the top row from left to right, then of the next row. -/
  pixels : Array Rgb
  size_pixels : pixels.size = width * height

namespace Canvas

/-- A black canvas. -/
def blank (width height : Nat) : Canvas :=
  ⟨width, height, Array.replicate (width * height) Rgb.black, Array.size_replicate⟩

/-- The colour of a pixel that lies on the canvas. -/
def pixel? (c : Canvas) (x y : Nat) : Option Rgb :=
  if x < c.width ∧ y < c.height then c.pixels[y * c.width + x]? else none

-- ============================================================== filling

/-- Colours `count` pixels from a place on. -/
def fillRun (color : Rgb) : (start count : Nat) → Array Rgb → Array Rgb
  | _, 0, pixels => pixels
  | start, count + 1, pixels => fillRun color (start + 1) count (pixels.setIfInBounds start color)

theorem size_fillRun (color : Rgb) (start count : Nat) (pixels : Array Rgb) :
    (fillRun color start count pixels).size = pixels.size := by
  induction count generalizing start pixels with
  | zero => rfl
  | succ n ih => rw [fillRun, ih, Array.size_setIfInBounds]

/-- Colours the same `count` pixels of `rows` rows of a canvas `width` pixels
wide; `start` is the place of the first pixel of the first row. -/
def fillRows (color : Rgb) (width count : Nat) :
    (start rows : Nat) → Array Rgb → Array Rgb
  | _, 0, pixels => pixels
  | start, rows + 1, pixels =>
    fillRows color width count (start + width) rows (fillRun color start count pixels)

theorem size_fillRows (color : Rgb) (width count start rows : Nat) (pixels : Array Rgb) :
    (fillRows color width count start rows pixels).size = pixels.size := by
  induction rows generalizing start pixels with
  | zero => rfl
  | succ n ih => rw [fillRows, ih, size_fillRun]

/-- Colours the pixels of columns `[left, right)` in lines `[top, bottom)`. -/
def fillPixels (c : Canvas) (left right top bottom : Nat) (color : Rgb) : Canvas where
  width := c.width
  height := c.height
  pixels :=
    fillRows color c.width (right - left) (top * c.width + left) (bottom - top) c.pixels
  size_pixels := by rw [size_fillRows, c.size_pixels]

-- ========================================================= rectangles

section

variable {α : Type} [Scalar α]

/-- The pixels `[first, last)` that a stretch along one axis reaches into, of
the first `limit`. -/
def pixelRange (start length : α) (limit : Nat) : Option (Nat × Nat) :=
  if Scalar.isFinite start ∧ Scalar.isFinite length ∧ Scalar.zero < length then
    let first := max (Scalar.floor start) 0
    let last := min (Scalar.ceil (start + length)) limit
    if first < last then some (first.toNat, last.toNat) else none
  else none

/-- Colours the pixels that a rectangle reaches into. -/
def fillRect (c : Canvas) (x y width height : α) (color : Rgb) : Canvas :=
  match pixelRange x width c.width, pixelRange y height c.height with
  | some (left, right), some (top, bottom) => c.fillPixels left right top bottom color
  | _, _ => c

end

/-- Colours all pixels. -/
def clear (c : Canvas) (color : Rgb) : Canvas := c.fillPixels 0 c.width 0 c.height color

-- =============================================================== images

/-- The header of a canvas as a binary portable pixmap. -/
def header (c : Canvas) : String := s!"P6\n{c.width} {c.height}\n255\n"

/-- The three bytes of a colour. -/
def colorBytes (color : Rgb) : List UInt8 := [color.red, color.green, color.blue]

/-- A canvas as a binary portable pixmap: the header, then three bytes for
each pixel. -/
def image (c : Canvas) : ByteArray :=
  c.pixels.foldl (fun bytes p => ((bytes.push p.red).push p.green).push p.blue) c.header.toUTF8

end Canvas

end Metrograph
