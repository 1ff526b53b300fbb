/-
Which pixels a rectangle colours.

A pixel has a column and a line. Filling pixels colours those of some
columns in some lines (`pixel?_fillPixels`), and filling a rectangle those
whose column and line it reaches into (`pixel?_fillRect`): along each axis
that is a question about one stretch and one pixel (`Reaches`), and how
large the canvas is does not come into it.
-/
import Mathlib.Tactic.SplitIfs
import Metrograph.Proofs.Canvas.Overwrite

namespace Metrograph

namespace Canvas

-- ============================================================= the places

/-- A place in the columns `[left, left + count)` of one line is in that line and
in one of the columns. -/
theorem in_run_iff {width left count top x y : Nat} (inside : left + count ≤ width)
    (hx : x < width) :
    top * width + left ≤ y * width + x ∧ y * width + x < top * width + left + count
      ↔ y = top ∧ left ≤ x ∧ x < left + count := by
  constructor
  · rintro ⟨low, high⟩
    rcases Nat.lt_trichotomy y top with above | rfl | below
    · have := Nat.mul_le_mul_right width above
      rw [Nat.succ_mul] at this
      omega
    · omega
    · have := Nat.mul_le_mul_right width below
      rw [Nat.succ_mul] at this
      omega
  · rintro ⟨rfl, low, high⟩
    omega

/-- Which pixels of a memory a run fills. -/
theorem getElem?_fillRun (color : Rgb) (start count : Nat) {a : Array Rgb} {i : Nat}
    (hi : i < a.size) :
    (fillRun color start count a)[i]?
      = if start ≤ i ∧ i < start + count then some color else a[i]? := by
  induction count generalizing start a with
  | zero => rw [fillRun, if_neg (by omega)]
  | succ n ih =>
    rw [fillRun, ih _ (by rwa [Array.size_setIfInBounds]), Array.getElem?_setIfInBounds]
    split_ifs <;> first | rfl | omega

/-- Runs below each other fill a rectangle if they do not go past the width. -/
theorem getElem?_fillRows (color : Rgb) {width left count : Nat} (inside : left + count ≤ width)
    (top rows : Nat) {a : Array Rgb} {x y : Nat} (hx : x < width) (hy : y * width + x < a.size) :
    (fillRows color width count (top * width + left) rows a)[y * width + x]?
      = if (left ≤ x ∧ x < left + count) ∧ top ≤ y ∧ y < top + rows then some color
        else a[y * width + x]? := by
  induction rows generalizing top a with
  | zero => rw [fillRows, if_neg (by omega)]
  | succ n ih =>
    have next : top * width + left + width = (top + 1) * width + left := by
      rw [Nat.succ_mul]
      omega
    rw [fillRows, next, ih (top + 1) (by rwa [size_fillRun]), getElem?_fillRun _ _ _ hy]
    simp only [in_run_iff inside hx]
    split_ifs <;> first | rfl | omega

/-- A pixel of the canvas has a place. -/
theorem place_lt {c : Canvas} {x y : Nat} (hx : x < c.width) (hy : y < c.height) :
    y * c.width + x < c.pixels.size := by
  have := Nat.mul_le_mul_right c.width hy
  rw [Nat.succ_mul, Nat.mul_comm c.height] at this
  rw [c.size_pixels]
  omega

/-- Which pixels a rectangle between pixels fills. -/
theorem pixel?_fillPixels (c : Canvas) {left right : Nat} (le : left ≤ right)
    (inside : right ≤ c.width) (top bottom : Nat) (color : Rgb) {x y : Nat} (hx : x < c.width)
    (hy : y < c.height) :
    (c.fillPixels left right top bottom color).pixel? x y
      = if (left ≤ x ∧ x < right) ∧ top ≤ y ∧ y < bottom then some color else c.pixel? x y := by
  have here : (c.fillPixels left right top bottom color).pixel? x y
      = (fillRows color c.width (right - left) (top * c.width + left) (bottom - top)
          c.pixels)[y * c.width + x]? := if_pos ⟨hx, hy⟩
  have there : c.pixel? x y = c.pixels[y * c.width + x]? := if_pos ⟨hx, hy⟩
  rw [here, there, getElem?_fillRows color (by omega) top _ hx (place_lt hx hy)]
  split_ifs <;> first | rfl | omega

/-- Canvases of one size are told apart by their pixels. -/
theorem eq_of_pixel? {c d : Canvas} (size : SameSize c d)
    (same : ∀ x y, x < c.width → y < c.height → c.pixel? x y = d.pixel? x y) : c = d := by
  refine eq_of_pixels size fun i => ?_
  by_cases hi : i < c.pixels.size
  · have bound : i < c.width * c.height := c.size_pixels ▸ hi
    have hx : i % c.width < c.width :=
      Nat.mod_lt _ (Nat.pos_of_ne_zero fun none => by rw [none, Nat.zero_mul] at bound; omega)
    have hy : i / c.width < c.height := Nat.div_lt_of_lt_mul bound
    have here := same _ _ hx hy
    unfold pixel? at here
    rwa [if_pos ⟨hx, hy⟩, if_pos ⟨size.1 ▸ hx, size.2 ▸ hy⟩, ← size.1, Nat.div_add_mod'] at here
  · rw [Array.getElem?_eq_none (Nat.le_of_not_lt hi),
      Array.getElem?_eq_none (size.size_eq ▸ Nat.le_of_not_lt hi)]

-- ========================================================== the stretches

variable {α : Type} [Scalar α]

/-- A stretch along one axis reaches into a pixel. -/
def Reaches (start length : α) (i : Nat) : Prop :=
  (Scalar.isFinite start ∧ Scalar.isFinite length ∧ Scalar.zero < length)
    ∧ Scalar.floor start ≤ i ∧ i < Scalar.ceil (start + length)

instance (start length : α) (i : Nat) : Decidable (Reaches start length i) :=
  inferInstanceAs (Decidable (_ ∧ _))

/-- The range of pixels is that of all pixels that are reached. -/
theorem pixelRange_eq {start length : α} {limit first last : Nat}
    (h : pixelRange start length limit = some (first, last)) :
    first < last ∧ last ≤ limit
      ∧ ∀ i, i < limit → (Reaches start length i ↔ first ≤ i ∧ i < last) := by
  unfold pixelRange at h
  split at h
  next proper =>
    dsimp only at h
    split at h
    next less =>
      obtain ⟨rfl, rfl⟩ := Prod.mk.inj (Option.some.inj h)
      refine ⟨by omega, by omega, fun i hi => ?_⟩
      unfold Reaches
      rw [and_iff_right proper]
      omega
    next => cases h
  next => cases h

/-- Without a range no pixel is reached. -/
theorem not_reaches_of_pixelRange {start length : α} {limit i : Nat}
    (h : pixelRange start length limit = none) (hi : i < limit) : ¬ Reaches start length i := by
  rintro ⟨proper, low, high⟩
  have less : max (Scalar.floor start) 0 < min (Scalar.ceil (start + length)) (limit : Int) := by
    omega
  rw [pixelRange, if_pos proper] at h
  dsimp only at h
  rw [if_pos less] at h
  cases h

@[simp] theorem width_fillRect (c : Canvas) (x y width height : α) (color : Rgb) :
    (c.fillRect x y width height color).width = c.width := by
  unfold fillRect
  split <;> rfl

@[simp] theorem height_fillRect (c : Canvas) (x y width height : α) (color : Rgb) :
    (c.fillRect x y width height color).height = c.height := by
  unfold fillRect
  split <;> rfl

/-- A rectangle fills exactly the pixels that it reaches into in both directions. -/
theorem pixel?_fillRect (c : Canvas) (x y width height : α) (color : Rgb) {i j : Nat}
    (hi : i < c.width) (hj : j < c.height) :
    (c.fillRect x y width height color).pixel? i j
      = if Reaches x width i ∧ Reaches y height j then some color else c.pixel? i j := by
  unfold fillRect
  cases columns : pixelRange x width c.width with
  | none => rw [if_neg fun both => not_reaches_of_pixelRange columns hi both.1]
  | some range =>
    obtain ⟨left, right⟩ := range
    cases lines : pixelRange y height c.height with
    | none => rw [if_neg fun both => not_reaches_of_pixelRange lines hj both.2]
    | some range =>
      obtain ⟨top, bottom⟩ := range
      obtain ⟨some_columns, inside, column⟩ := pixelRange_eq columns
      obtain ⟨-, -, line⟩ := pixelRange_eq lines
      simp only [column i hi, line j hj]
      exact pixel?_fillPixels c (Nat.le_of_lt some_columns) inside top bottom color hi hj

end Canvas

end Metrograph
