/-
What rows and bars look like pixel by pixel, read exactly.

# Stretches

Without rounding a stretch reaches from the pixel that it starts in to the
one that it ends in (`reaches_exact_iff`). So a stretch inside another one
reaches into no pixel that the other does not reach into
(`Reaches.of_within`), however thin the two are: floors and ceilings keep
the order.

# The background

Rows lie one below the other, so of the rows that begin by a line of
pixels the last one reaches into it, and the ones after it do not
(`covers_of_isGreatest`): the line is left as this row painted it. Along
the row three rectangles follow one another, each widened to whole pixels
over the one before, so that a pixel with an edge in it belongs to what
lies to the right of the edge. The canvas ends on the edge of the longest
row if there is no margin; then nothing lies to the right of it
(`pixel?_paintRow_exact`).

# Bars

A bar lies within its row, whose lines are cleared before it is painted.
So what a bar paints is decided on the column and the row alone, and of
several bars the last one is seen (`last_bar_shows`).
-/
import Mathlib.Data.Nat.SuccPred
import Metrograph.Proofs.Canvas.Clearing

namespace Metrograph

-- ============================================================== stretches

namespace Canvas

variable {start length : ℚ} {i : ℕ}

/-- Without rounding a stretch reaches into every pixel it has a part of. -/
theorem reaches_exact_iff :
    Reaches start length i ↔ 0 < length ∧ ⌊start⌋ ≤ i ∧ (i : ℤ) < ⌈start + length⌉ := by
  unfold Reaches
  rw [Exact.floor_eq, Exact.ceil_eq]
  exact and_congr_left' ⟨fun proper => proper.2.2, fun positive => ⟨rfl, rfl, positive⟩⟩

/-- A stretch from one edge to the next. -/
theorem reaches_sub_iff {stop : ℚ} :
    Reaches start (stop - start) i ↔ start < stop ∧ ⌊start⌋ ≤ i ∧ (i : ℤ) < ⌈stop⌉ := by
  rw [reaches_exact_iff, add_sub_cancel, sub_pos]

/-- What reaches into a pixel reaches into it also when it is longer. -/
theorem Reaches.of_within {start' length' : ℚ} (reaches : Reaches start length i)
    (low : start' ≤ start) (high : start + length ≤ start' + length') :
    Reaches start' length' i := by
  obtain ⟨positive, first, last⟩ := reaches_exact_iff.mp reaches
  refine reaches_exact_iff.mpr ⟨by linarith, ?_, ?_⟩
  · exact (Int.floor_mono low).trans first
  · exact last.trans_le (Int.ceil_mono high)

/-- A column is reached by nothing but itself. -/
theorem reaches_column_iff {column : ℤ} :
    Reaches (Scalar.ofInt column : ℚ) Scalar.one i ↔ column = i := by
  have whole : (Scalar.ofInt column : ℚ) = column := rfl
  have next : (column : ℚ) + 1 = (column + 1 : ℤ) := by push_cast; rfl
  rw [reaches_exact_iff, Exact.one_eq, whole, next, Int.floor_intCast, Int.ceil_intCast]
  constructor
  · rintro ⟨-, low, high⟩
    omega
  · rintro rfl
    exact ⟨one_pos, le_rfl, Int.lt_add_one_iff.mpr le_rfl⟩

end Canvas

-- ================================================================ layouts

namespace Grid.Layout

variable (l : Layout ℚ) {row y : ℕ}

/-- The rows fill the height. -/
theorem rowHeight_mul_rows : l.rowHeight * l.rows = l.height := by
  have rows : (l.rows : ℚ) ≠ 0 := by exact_mod_cast l.rows_pos.ne'
  exact div_mul_cancel₀ _ rows

theorem rowHeight_pos : 0 < l.rowHeight := by
  have height : (0 : ℚ) < l.height := by
    exact_mod_cast Nat.pos_of_ne_zero l.isDrawable.height_ne_zero
  have rows : (0 : ℚ) < l.rows := by exact_mod_cast l.rows_pos
  exact div_pos height rows

/-- A row ends where the next one begins. -/
theorem rowTop_add_rowHeight (row : ℕ) : l.rowTop row + l.rowHeight = l.rowTop (row + 1) := by
  have top (r : ℕ) : l.rowTop r = r * l.rowHeight := rfl
  rw [top, top]
  push_cast
  ring

/-- The lines of pixels that a row has a part of. -/
theorem covers_exact_iff :
    l.Covers row y ↔ ⌊l.rowTop row⌋ ≤ y ∧ (y : ℤ) < ⌈l.rowTop row + l.rowHeight⌉ := by
  unfold Covers
  rw [Canvas.reaches_exact_iff, and_iff_right l.rowHeight_pos]

/-- The rows that begin by a line of pixels. -/
def rowsBy (y : ℕ) : Set ℕ := {row | row < l.rows ∧ ⌊l.rowTop row⌋ ≤ y}

/-- On every line some row has begun, and a last one. -/
theorem exists_isGreatest_rowsBy (y : ℕ) : ∃ row, IsGreatest (l.rowsBy y) row := by
  have top : l.rowTop 0 = 0 := zero_mul l.rowHeight
  have first : 0 ∈ l.rowsBy y := by
    refine ⟨l.rows_pos, ?_⟩
    rw [top, Int.floor_zero]
    exact Int.natCast_nonneg y
  have bounded : BddAbove (l.rowsBy y) := ⟨l.rows, fun row member => member.1.le⟩
  exact bounded.exists_isGreatest_of_nonempty ⟨0, first⟩

/-- Of the rows that begin by a line of the canvas the last one reaches into it,
and no later one does. -/
theorem covers_of_isGreatest (last : IsGreatest (l.rowsBy y) row) (inside : y < l.height) :
    l.Covers row y ∧ ∀ later, row < later → later < l.rows → ¬ l.Covers later y := by
  obtain ⟨⟨drawn, begins⟩, most⟩ := last
  refine ⟨l.covers_exact_iff.mpr ⟨begins, ?_⟩, fun later less below covers => ?_⟩
  · rw [rowTop_add_rowHeight, Int.lt_ceil, Int.cast_natCast]
    rcases (Nat.succ_le_of_lt drawn).eq_or_lt with bottom | more
    · -- the bottom row ends with the canvas
      have all : l.rowTop (row + 1) = l.height := by
        have top : l.rowTop (row + 1) = (row + 1 : ℕ) * l.rowHeight := rfl
        rw [top, ← Nat.succ_eq_add_one, bottom, mul_comm, rowHeight_mul_rows]
      rw [all]
      exact_mod_cast inside
    · -- any other row ends where one begins that is too late for the line
      have late : ¬ ⌊l.rowTop (row + 1)⌋ ≤ y := fun by_line =>
        (Nat.lt_succ_self row).not_ge (most ⟨more, by_line⟩)
      exact_mod_cast (lt_add_one (y : ℚ)).trans_le (Int.lt_floor_iff.mp (not_le.mp late))
  · exact less.not_ge (most ⟨below, (l.covers_exact_iff.mp covers).1⟩)

/-- A row has beats of its own on the canvas, and margins of one width. -/
theorem rowExtent_mem (row : ℕ) :
    0 ≤ (l.rowExtent row).1 ∧ (l.rowExtent row).1 < (l.rowExtent row).2
      ∧ (l.rowExtent row).2 ≤ l.width := by
  have inside : row % l.rows < l.rows := Nat.mod_lt row l.rows_pos
  have positive := l.pixelsPerBeat_pos
  have margin := mul_nonneg l.margin_nonneg positive.le
  have beats : (0 : ℚ) < l.rowBeats.getD (row % l.rows) 0 := by
    exact_mod_cast l.rowBeats_pos inside
  have longest : (l.rowBeats.getD (row % l.rows) 0 : ℚ) ≤ l.longestRow := by
    exact_mod_cast l.rowBeats_le_longestRow inside
  have wide := mul_le_mul_of_nonneg_right longest positive.le
  have filled := l.width_eq
  have extent : l.rowExtent row = (l.margin * l.pixelsPerBeat,
      l.margin * l.pixelsPerBeat + l.rowBeats.getD (row % l.rows) 0 * l.pixelsPerBeat) := rfl
  rw [extent]
  refine ⟨margin, lt_add_of_pos_right _ (mul_pos beats positive), ?_⟩
  dsimp only
  linarith

end Grid.Layout

namespace Painter

open Grid (Layout)
open Canvas (Reaches reaches_exact_iff reaches_sub_iff reaches_column_iff)
open Waveform (Bar)

variable {l : Layout ℚ} {c : Canvas} {row x y : ℕ}

-- ============================================================= background

/-- The colour of a row in one of its columns: the row's own from the pixel its
beats start in, up to the one they end in unless they end with the canvas. -/
def rowColor (l : Layout ℚ) (row x : ℕ) : Rgb :=
  if ⌊(l.rowExtent row).1⌋ ≤ x ∧ ((x : ℤ) < ⌊(l.rowExtent row).2⌋ ∨ (l.rowExtent row).2 = l.width)
  then rowShade row else Palette.marginShade

/-- A row paints its color into all lines that it covers. -/
theorem pixel?_paintRow_exact (width : c.width = l.width) (hx : x < c.width) (hy : y < c.height)
    (covers : l.Covers row y) : (paintRow c l row).pixel? x y = some (rowColor l row x) := by
  obtain ⟨nonneg, less, fits⟩ := l.rowExtent_mem row
  have own : backgroundAt l row (l.rowExtent row).1 = rowShade row :=
    if_neg (not_or.mpr ⟨lt_irrefl _, less.not_ge⟩)
  have columns : (Scalar.ofNat c.width : ℚ) = c.width := rfl
  have inside : (x : ℤ) < l.width := by exact_mod_cast width ▸ hx
  rw [pixel?_paintRow_of_covers hx hy covers, own, columns, width]
  simp only [reaches_sub_iff, Int.ceil_natCast]
  unfold rowColor
  generalize (l.rowExtent row).1 = start at nonneg less
  generalize (l.rowExtent row).2 = stop at less fits
  by_cases right : stop < l.width ∧ ⌊stop⌋ ≤ x
  · -- the right margin
    rw [if_pos ⟨right.1, right.2, inside⟩, if_neg]
    exact fun both => both.2.elim right.2.not_gt right.1.ne
  · have ended : (x : ℤ) < ⌊stop⌋ ∨ stop = l.width := by
      rcases fits.lt_or_eq with before | with_canvas
      · exact Or.inl (not_le.mp fun past => right ⟨before, past⟩)
      · exact Or.inr with_canvas
    have reached : (x : ℤ) < ⌈stop⌉ := by
      rcases ended with within | rfl
      · exact within.trans_le (Int.floor_le_ceil stop)
      · rwa [Int.ceil_natCast]
    rw [if_neg fun third => right ⟨third.1, third.2.1⟩]
    by_cases begun : ⌊start⌋ ≤ x
    · rw [if_pos ⟨less, begun, reached⟩, if_pos ⟨begun, ended⟩]
    · -- the left margin
      have early := not_le.mp begun
      have lead : Reaches Scalar.zero start x := by
        have some_pixels : (0 : ℤ) < ⌊start⌋ := (Int.natCast_nonneg x).trans_lt early
        refine reaches_exact_iff.mpr ⟨?_, Int.natCast_nonneg x, ?_⟩
        · exact one_pos.trans_le (Int.floor_pos.mp some_pixels)
        · show (x : ℤ) < ⌈0 + start⌉
          rw [zero_add]
          exact early.trans_le (Int.floor_le_ceil start)
      rw [if_neg fun second => begun second.2.1, if_pos lead, if_neg fun both => begun both.1]

/-- After the background has been painted a pixel belongs to the last row that
begins by its line, and has that row's colour from the pixel the row's beats
start in up to the one they end in, which is the row's as well only where the
canvas ends with it; on both sides it has the shade of the margins. What was on
the canvas before does not show. -/
theorem background_of_last_row (l : Layout ℚ) {c : Canvas}
    (size : c.width = l.width ∧ c.height = l.height) {x y : ℕ} (hx : x < l.width)
    (hy : y < l.height) :
    ∃ row, IsGreatest {row | row < l.rows ∧ ⌊l.rowTop row⌋ ≤ y} row
      ∧ (paintBackground c l).pixel? x y = some (
        if ⌊(l.rowExtent row).1⌋ ≤ x
          ∧ ((x : ℤ) < ⌊(l.rowExtent row).2⌋ ∨ (l.rowExtent row).2 = l.width)
        then if row % 2 = 1 then Palette.alternateRow else Palette.background
        else Palette.marginShade) := by
  obtain ⟨width, height⟩ := size
  obtain ⟨row, last⟩ := l.exists_isGreatest_rowsBy y
  obtain ⟨covers, alone⟩ := l.covers_of_isGreatest last hy
  obtain ⟨same_width, same_height⟩ := sameSize_rows (c.clear Palette.background) l row
  refine ⟨row, last, (pixel?_rows ?_ ?_ last.1.1 alone).trans (pixel?_paintRow_exact ?_ ?_ ?_ covers)⟩
  · exact hx.trans_eq width.symm
  · exact hy.trans_eq height.symm
  · exact same_width.trans width
  · exact hx.trans_eq (same_width.trans width).symm
  · exact hy.trans_eq (same_height.trans height).symm

/-- Three rows on two lines of pixels, with margins as wide as half a row. -/
def crowdedGrid : Layout ℚ := ⟨⟨[1, 1, 1], 1 / 2, 4, 2⟩, by decide +kernel⟩

/-- The upper one of two lines is that of the second of three rows. -/
theorem background_of_last_row_crowded :
    IsGreatest {row | row < crowdedGrid.rows ∧ ⌊crowdedGrid.rowTop row⌋ ≤ (0 : ℕ)} 1
      ∧ (paintBackground ((Canvas.blank 4 2).clear Palette.bar) crowdedGrid).pixel? 1 0
        = some Palette.alternateRow := by
  have second : IsGreatest {row | row < crowdedGrid.rows ∧ ⌊crowdedGrid.rowTop row⌋ ≤ (0 : ℕ)} 1 := by
    refine ⟨⟨by decide, by decide +kernel⟩, fun later ⟨drawn, begins⟩ => ?_⟩
    by_contra beyond
    obtain rfl : later = 2 := by
      have few : later < 3 := drawn
      omega
    exact absurd begins (by decide +kernel)
  obtain ⟨row, last, shown⟩ := background_of_last_row crowdedGrid
    (c := (Canvas.blank 4 2).clear Palette.bar) ⟨rfl, rfl⟩ (x := 1) (y := 0) (by decide) (by decide)
  obtain rfl : row = 1 := last.unique second
  refine ⟨second, ?_⟩
  rw [shown]
  decide +kernel

-- =================================================================== bars

/-- How far a bar goes up and down from the middle of its row. -/
def halfBar (l : Layout ℚ) (bar : Bar ℚ) : ℚ :=
  bar.level * l.rowHeight * barHeight / Scalar.ofNat 2

/-- A bar is painted on a line. -/
def BarCovers (l : Layout ℚ) (bar : Bar ℚ) (y : ℕ) : Prop :=
  Reaches (l.rowTop bar.position.row + l.rowHeight / Scalar.ofNat 2 - halfBar l bar)
    (halfBar l bar * Scalar.ofNat 2) y

instance (l : Layout ℚ) (bar : Bar ℚ) (y : ℕ) : Decidable (BarCovers l bar y) :=
  inferInstanceAs (Decidable (Reaches _ _ _))

/-- Neither half of a bar leaves its row. -/
theorem halfBar_le {bar : Bar ℚ} (low : 0 ≤ bar.level) (high : bar.level ≤ 1) :
    halfBar l bar ≤ l.rowHeight / 2 := by
  have share : (barHeight : ℚ) = 9 / 10 := by decide +kernel
  have two : (Scalar.ofNat 2 : ℚ) = 2 := rfl
  have some_height := mul_nonneg low l.rowHeight_pos.le
  have most := mul_le_mul_of_nonneg_right high l.rowHeight_pos.le
  unfold halfBar
  rw [share, two]
  linarith

/-- A bar stays in its row. -/
theorem covers_of_barCovers {bar : Bar ℚ} (low : 0 ≤ bar.level) (high : bar.level ≤ 1)
    (painted : BarCovers l bar y) : l.Covers bar.position.row y := by
  have two : (Scalar.ofNat 2 : ℚ) = 2 := rfl
  have most := halfBar_le (l := l) low high
  refine Reaches.of_within painted ?_ ?_
  · rw [two]
    linarith
  · rw [two]
    linarith

/-- Painting a bar decides the pixels of its column in its row, and no others. -/
theorem pixel?_paintBar_exact {bar : Bar ℚ} (low : 0 ≤ bar.level) (high : bar.level ≤ 1)
    (byLevel : Bool) (hx : x < c.width) (hy : y < c.height) :
    (paintBar c l bar byLevel).pixel? x y
      = if bar.column = x ∧ l.Covers bar.position.row y then
          some (if BarCovers l bar y then barColor bar byLevel
            else backgroundAt l bar.position.row (Scalar.ofInt bar.column))
        else c.pixel? x y := by
  have stays (painted : BarCovers l bar y) := covers_of_barCovers low high painted
  have painted_twice : (paintBar c l bar byLevel).pixel? x y
      = if bar.column = x ∧ BarCovers l bar y then some (barColor bar byLevel)
        else if bar.column = x ∧ l.Covers bar.position.row y then
          some (backgroundAt l bar.position.row (Scalar.ofInt bar.column))
        else c.pixel? x y := by
    unfold paintBar
    dsimp only
    rw [Canvas.pixel?_fillRect, Canvas.pixel?_fillRect _ _ _ _ _ _ hx hy]
    · simp only [reaches_column_iff]
      rfl
    all_goals simpa
  rw [painted_twice]
  by_cases here : bar.column = x
  · by_cases painted : BarCovers l bar y
    · rw [if_pos ⟨here, painted⟩, if_pos ⟨here, stays painted⟩, if_pos painted]
    · rw [if_neg fun both => painted both.2, if_neg painted]
  · rw [if_neg fun both => here both.1, if_neg fun both => here both.1,
      if_neg fun both => here both.1]

/-- A bar changes no pixel outside its column and its row; and of two bars in
one column of one row the later one alone is seen, whatever was there before
and however they are coloured. -/
theorem last_bar_shows (l : Layout ℚ) (c : Canvas) :
    (∀ (bar : Bar ℚ) (byLevel : Bool), 0 ≤ bar.level → bar.level ≤ 1 → ∀ x y : ℕ,
      ¬ (bar.column = x ∧ ⌊l.rowTop bar.position.row⌋ ≤ y
        ∧ (y : ℤ) < ⌈l.rowTop bar.position.row + l.rowHeight⌉) →
      (paintBar c l bar byLevel).pixel? x y = c.pixel? x y)
    ∧ ∀ (first second : Bar ℚ) (byLevel byLevel' : Bool),
      first.position.row = second.position.row → first.column = second.column →
      0 ≤ first.level → first.level ≤ 1 → 0 ≤ second.level → second.level ≤ 1 →
        paintBar (paintBar c l first byLevel) l second byLevel' = paintBar c l second byLevel' := by
  refine ⟨fun bar byLevel low high x y outside => ?_, ?_⟩
  · obtain ⟨same_width, same_height⟩ := sameSize_paintBar c l bar byLevel
    by_cases on : x < c.width ∧ y < c.height
    · rw [pixel?_paintBar_exact low high byLevel on.1 on.2, if_neg]
      exact fun lane => outside ⟨lane.1, l.covers_exact_iff.mp lane.2⟩
    · unfold Canvas.pixel?
      rw [same_width, same_height, if_neg on, if_neg on]
  · intro first second byLevel byLevel' row column low high low' high'
    have once := sameSize_paintBar c l first byLevel
    have twice := sameSize_paintBar (paintBar c l first byLevel) l second byLevel'
    have only := sameSize_paintBar c l second byLevel'
    refine Canvas.eq_of_pixel? ((twice.trans once).trans only.symm) fun x y hx hy => ?_
    rw [twice.1] at hx
    rw [twice.2] at hy
    rw [pixel?_paintBar_exact low' high' _ hx hy,
      pixel?_paintBar_exact low' high' _ (once.1 ▸ hx) (once.2 ▸ hy)]
    by_cases lane : second.column = x ∧ l.Covers second.position.row y
    · rw [if_pos lane, if_pos lane]
    · rw [if_neg lane, if_neg lane, pixel?_paintBar_exact low high _ (once.1 ▸ hx) (once.2 ▸ hy),
        row, column, if_neg lane]

/-- A bar in the second row and second column. -/
def crowdedBar (level : ℚ) (kind : Waveform.BarKind) : Bar ℚ := ⟨⟨1, 1⟩, 1, level, kind⟩

/-- On rows thinner than a line of pixels: a loud bar coloured by its level, and a
faint one of a margin over it. -/
theorem last_bar_shows_crowded :
    (paintBar (.blank 4 2) crowdedGrid (crowdedBar 1 .home) true).pixel? 1 0
        = some (Palette.level (1 : ℚ))
      ∧ (paintBar (.blank 4 2) crowdedGrid (crowdedBar 1 .home) true).pixel? 2 0 = some Rgb.black
      ∧ paintBar (paintBar (.blank 4 2) crowdedGrid (crowdedBar 1 .home) true) crowdedGrid
          (crowdedBar (1 / 8) .marginCopy) false
        = paintBar (.blank 4 2) crowdedGrid (crowdedBar (1 / 8) .marginCopy) false := by
  obtain ⟨lane, last⟩ := last_bar_shows crowdedGrid (.blank 4 2)
  refine ⟨by decide +kernel, ?_, last _ _ true false rfl rfl ?_ ?_ ?_ ?_⟩
  · rw [lane (crowdedBar 1 .home) true zero_le_one le_rfl 2 0]
    · decide
    · exact fun inside => absurd inside.1 (by decide)
  · exact zero_le_one
  · exact le_rfl
  · show (0 : ℚ) ≤ 1 / 8
    norm_num
  · show (1 / 8 : ℚ) ≤ 1
    norm_num

end Painter

end Metrograph
