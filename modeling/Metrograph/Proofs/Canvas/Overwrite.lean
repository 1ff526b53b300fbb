/-
Painting never looks at what is on the canvas.

# The property

`Paints f` says this without naming the pixels that `f` colours: of two
canvases of one size, every place either comes out alike or is left by `f`
as it was on both. It holds of filling a run of pixels, it survives doing
one thing after another, and it survives letting the size of the canvas
decide what is done; so it holds of everything a painter does.

# What it is for

A painting that is repeated covers its own traces: whatever is painted in
between, doing `f` before it makes no difference if `f` is done after it
(`Paints.absorb`).
-/
import Metrograph.Canvas.Painter

namespace Metrograph

namespace Canvas

/-- Two canvases of one width and one height. -/
def SameSize (c d : Canvas) : Prop := c.width = d.width ∧ c.height = d.height

theorem SameSize.symm {c d : Canvas} (h : SameSize c d) : SameSize d c := ⟨h.1.symm, h.2.symm⟩

theorem SameSize.trans {c d e : Canvas} (h : SameSize c d) (k : SameSize d e) : SameSize c e :=
  ⟨h.1.trans k.1, h.2.trans k.2⟩

/-- Canvases of one size have equally many pixels. -/
theorem SameSize.size_eq {c d : Canvas} (h : SameSize c d) : c.pixels.size = d.pixels.size := by
  rw [c.size_pixels, d.size_pixels, h.1, h.2]

/-- A canvas is its size and its pixels. -/
theorem eq_of_pixels {c d : Canvas} (size : SameSize c d)
    (pixels : ∀ i : Nat, c.pixels[i]? = d.pixels[i]?) : c = d := by
  obtain ⟨width, height, cs, hc⟩ := c
  obtain ⟨width', height', ds, hd⟩ := d
  obtain ⟨hw, hh⟩ := size
  dsimp only at hw hh
  subst hw hh
  have same : cs = ds := Array.ext_getElem? pixels
  subst same
  rfl

-- ============================================================== pixels

/-- Of two arrays of one size, every place comes out alike or is left as it
was. -/
def Overwrites (f : Array Rgb → Array Rgb) : Prop :=
  ∀ a b : Array Rgb, a.size = b.size → (f a).size = a.size ∧
    ∀ i : Nat, (f a)[i]? = (f b)[i]? ∨ ((f a)[i]? = a[i]? ∧ (f b)[i]? = b[i]?)

theorem overwrites_id : Overwrites fun a => a := fun _ _ _ => ⟨rfl, fun _ => Or.inr ⟨rfl, rfl⟩⟩

/-- Overwriting twice is overwriting. -/
theorem Overwrites.comp {f g : Array Rgb → Array Rgb} (hf : Overwrites f) (hg : Overwrites g) :
    Overwrites fun a => g (f a) := by
  intro a b size
  have sizes : (f a).size = (f b).size := by
    rw [(hf a b size).1, (hf b a size.symm).1, size]
  obtain ⟨hsize, hpixel⟩ := hg (f a) (f b) sizes
  refine ⟨hsize.trans (hf a b size).1, fun i => ?_⟩
  rcases hpixel i with alike | ⟨ga, gb⟩
  · exact Or.inl alike
  · rcases (hf a b size).2 i with alike | ⟨fa, fb⟩
    · exact Or.inl (by rw [ga, gb, alike])
    · exact Or.inr ⟨ga.trans fa, gb.trans fb⟩

/-- Colouring one pixel. -/
theorem overwrites_set (color : Rgb) (place : Nat) :
    Overwrites fun a => a.setIfInBounds place color := by
  intro a b size
  refine ⟨Array.size_setIfInBounds, fun i => ?_⟩
  rw [Array.getElem?_setIfInBounds, Array.getElem?_setIfInBounds, size]
  by_cases here : place = i
  · rw [if_pos here, if_pos here]
    exact Or.inl rfl
  · rw [if_neg here, if_neg here]
    exact Or.inr ⟨rfl, rfl⟩

/-- A run of pixels overwrites. -/
theorem overwrites_fillRun (color : Rgb) (start count : Nat) :
    Overwrites (fillRun color start count) := by
  induction count generalizing start with
  | zero => exact overwrites_id
  | succ n ih => exact (overwrites_set color start).comp (ih (start + 1))

/-- So do runs below each other. -/
theorem overwrites_fillRows (color : Rgb) (width count start rows : Nat) :
    Overwrites (fillRows color width count start rows) := by
  induction rows generalizing start with
  | zero => exact overwrites_id
  | succ n ih => exact (overwrites_fillRun color start count).comp (ih (start + width))

-- ============================================================ paintings

/-- Of two canvases of one size, every place comes out alike or is left as it
was. -/
def Paints (f : Canvas → Canvas) : Prop :=
  ∀ c d : Canvas, SameSize c d → SameSize (f c) c ∧
    ∀ i : Nat, (f c).pixels[i]? = (f d).pixels[i]?
      ∨ ((f c).pixels[i]? = c.pixels[i]? ∧ (f d).pixels[i]? = d.pixels[i]?)

/-- A painting keeps the size of the canvas. -/
theorem Paints.size {f : Canvas → Canvas} (hf : Paints f) (c : Canvas) : SameSize (f c) c :=
  (hf c c ⟨rfl, rfl⟩).1

/-- Doing nothing paints. -/
theorem paints_id : Paints fun c => c := fun _ _ _ => ⟨⟨rfl, rfl⟩, fun _ => Or.inr ⟨rfl, rfl⟩⟩

/-- Painting twice is painting. -/
theorem Paints.comp {f g : Canvas → Canvas} (hf : Paints f) (hg : Paints g) :
    Paints fun c => g (f c) := by
  intro c d size
  have sizes : SameSize (f c) (f d) := ((hf.size c).trans size).trans (hf.size d).symm
  refine ⟨(hg.size (f c)).trans (hf.size c), fun i => ?_⟩
  rcases (hg _ _ sizes).2 i with alike | ⟨gc, gd⟩
  · exact Or.inl alike
  · rcases (hf c d size).2 i with alike | ⟨fc, fd⟩
    · exact Or.inl (by rw [gc, gd, alike])
    · exact Or.inr ⟨gc.trans fc, gd.trans fd⟩

/-- The size of the canvas may decide what is painted. -/
theorem paints_of_size {f : Nat → Nat → Canvas → Canvas} (hf : ∀ w h, Paints (f w h)) :
    Paints fun c => f c.width c.height c := by
  intro c d size
  have same : f d.width d.height = f c.width c.height := by rw [size.1, size.2]
  dsimp only
  rw [same]
  exact hf c.width c.height c d size

/-- So is painting one thing after another. -/
theorem paints_foldl {β : Type} {f : Canvas → β → Canvas} (hf : ∀ x, Paints fun c => f c x)
    (xs : List β) : Paints fun c => xs.foldl f c := by
  induction xs with
  | nil => exact paints_id
  | cons x rest ih => exact (hf x).comp ih

/-- Whatever `g` paints in between, what `f` painted before does not show once
`f` has painted again. -/
theorem Paints.absorb {f g : Canvas → Canvas} (hf : Paints f) (hg : Paints g) (c : Canvas) :
    f (g (f c)) = f (g c) := by
  have size : SameSize (g (f c)) (g c) :=
    ((hg.size (f c)).trans (hf.size c)).trans (hg.size c).symm
  refine eq_of_pixels (((hf.size _).trans size).trans (hf.size _).symm) fun i => ?_
  rcases (hf _ _ size).2 i with alike | ⟨kept, kept'⟩
  · exact alike
  rw [kept, kept']
  rcases (hg _ _ (hf.size c)).2 i with alike | ⟨under, under'⟩
  · exact alike
  rw [under, under']
  -- neither `g` nor the last `f` coloured the place, so neither did the first
  rcases (hf _ _ (hg.size c).symm).2 i with alike | ⟨first, -⟩
  · rw [alike, kept', under']
  · exact first

-- ======================================================= what is painted

theorem paints_fillPixels (left right top bottom : Nat) (color : Rgb) :
    Paints fun c => c.fillPixels left right top bottom color := by
  intro c d size
  have rows := overwrites_fillRows color c.width (right - left) (top * c.width + left)
    (bottom - top) c.pixels d.pixels size.size_eq
  have same : (d.fillPixels left right top bottom color).pixels
      = fillRows color c.width (right - left) (top * c.width + left) (bottom - top) d.pixels := by
    unfold fillPixels
    rw [size.1]
  refine ⟨⟨rfl, rfl⟩, fun i => ?_⟩
  rw [same]
  exact rows.2 i

variable {α : Type} [Scalar α]

/-- A rectangle paints, wherever it lies. -/
theorem paints_fillRect (x y width height : α) (color : Rgb) :
    Paints fun c => c.fillRect x y width height color := by
  intro c d size
  dsimp only
  unfold fillRect
  rw [← size.1, ← size.2]
  cases pixelRange x width c.width with
  | none => exact paints_id c d size
  | some columns =>
      cases pixelRange y height c.height with
      | none => exact paints_id c d size
      | some rows => exact paints_fillPixels columns.1 columns.2 rows.1 rows.2 color c d size

theorem paints_clear (color : Rgb) : Paints fun c => c.clear color :=
  @paints_of_size (fun w h c => c.fillPixels 0 w 0 h color)
    fun w h => paints_fillPixels 0 w 0 h color

end Canvas

namespace Painter

open Canvas

variable {α : Type} [Scalar α]

theorem paints_paintRow (l : Grid.Layout α) (row : Nat) : Paints fun c => paintRow c l row := by
  let extent := l.rowExtent row
  let band := fun c : Canvas =>
    (c.fillRect Scalar.zero (l.rowTop row) extent.1 l.rowHeight Palette.marginShade).fillRect
      extent.1 (l.rowTop row) (extent.2 - extent.1) l.rowHeight (backgroundAt l row extent.1)
  have painted : Paints band := (paints_fillRect _ _ _ _ _).comp (paints_fillRect _ _ _ _ _)
  exact @paints_of_size
    (fun w _ c => (band c).fillRect extent.2 (l.rowTop row) (Scalar.ofNat w - extent.2) l.rowHeight
      Palette.marginShade)
    fun _ _ => painted.comp (paints_fillRect _ _ _ _ _)

/-- The background paints. -/
theorem paints_paintBackground (l : Grid.Layout α) : Paints fun c => paintBackground c l :=
  (paints_clear _).comp (paints_foldl (fun row => paints_paintRow l row) _)

/-- A bar paints, in its own row. -/
theorem paints_paintBar (l : Grid.Layout α) (bar : Waveform.Bar α) (byLevel : Bool) :
    Paints fun c => paintBar c l bar byLevel :=
  (paints_fillRect _ _ _ _ _).comp (paints_fillRect _ _ _ _ _)

theorem paints_paintRowLines (l : Grid.Layout α) : Paints fun c => paintRowLines c l :=
  @paints_of_size (fun w _ c => (List.range (l.rows - 1)).foldl
      (fun c row => c.fillRect Scalar.zero (l.rowTop (row + 1)) (Scalar.ofNat w) Scalar.one
        Palette.rowLine) c)
    fun _ _ => paints_foldl (fun _ => paints_fillRect _ _ _ _ _) _

/-- A line paints, however far it is shifted. -/
theorem paints_paintLine (l : Grid.Layout α) (beat : α) (color : Rgb) (offset : Int) :
    Paints fun c => paintLine c l beat color offset :=
  paints_fillRect _ _ _ _ _

/-- The notes of a loop, drawn where they fall in the window. -/
theorem paints_notes (l : Grid.Layout α) (notes : List (α × Rhythm.Note α)) (offset : α) :
    Paints fun c => notes.foldl (fun c (beat, note) =>
      (rowOffsets l).foldl (fun c k => paintLine c l (beat + offset) (lineColor note) k) c) c :=
  paints_foldl (fun _ => paints_foldl (fun k => paints_paintLine l _ _ k) _) notes

/-- The overlay paints, with as many lines as are listed. -/
theorem paints_paintOverlay (l : Grid.Layout α) (loop : Rhythm.Loop α) (offset : α) :
    Paints fun c => paintOverlay c l loop offset := by
  let fits (w : Nat) : Bool := decide
    (Scalar.ofNat loop.notes.length * l.window / loop.length ≤ Scalar.ofNat w * Scalar.ofNat l.rows)
  let notes := loop.occurrences (-offset) (l.window - offset)
  refine (paints_paintRowLines l).comp (@paints_of_size (fun w _ c =>
    if fits w then notes.foldl (fun c (beat, note) =>
      (rowOffsets l).foldl (fun c k => paintLine c l (beat + offset) (lineColor note) k) c) c
    else c) fun w _ => ?_)
  cases fits w with
  | true => exact paints_notes l notes offset
  | false => exact paints_id

end Painter

end Metrograph
