/-
Clearing a bar: what is left of the background.

# Two ways to the background

Painting the background fills three rectangles for each row, from the
margin over the row's own beats to the margin, each widened to whole
pixels over the one before. A bar is cleared with one colour for its
column, which is found by comparing the left side of the column with the
edges of the row's own beats.

# Where they agree

Between the edges, and beyond them, only one of the three rectangles
decides (`reaches_between`), and it has the colour that the column is
cleared with (`pixel?_paintRow`). That the widths are differences, rounded,
makes no pixel too few, because halves of pixels are held
(`lt_nearest_add`). What later rows paint over is what they share with the
row, and then the next row shares it too (`covers_next`).

# Where they differ

A column that an edge splits shows what was painted last, but is cleared
with what is left of the edge; and a line that two rows reach into is
cleared with the colour of the row that was painted first. So a bar
without a level is invisible up to such pixels
(`paintBar_paintBackground`), and can be seen on them.
-/
import Metrograph.Proofs.Canvas.Pixels
import Metrograph.Proofs.Grid.Bands

namespace Metrograph

open Binary64 hiding value
open Canvas (Reaches)

-- ============================================================== stretches

/-- A stretch that is to cover a pixel covers it still if its length is the
difference of its ends, rounded, and so is its end. -/
theorem Binary64.lt_nearest_add {x : ℕ} (small : x ≤ 2 ^ 50) {s e : ℚ} (nonneg : 0 ≤ s)
    (le : s ≤ x) (far : x + 1 ≤ e) : (x : ℚ) < nearest (s + nearest (e - s)) := by
  have length := half_le_nearest (n := ⌊2 * (x + 1 - s)⌋) (q := e - s) ?_ ?_
  · have next := Int.lt_floor_add_one (2 * (x + 1 - s))
    have last := half_le_nearest (n := 2 * x + 1) (q := s + nearest (e - s)) ?_ ?_
    · push_cast at last
      linarith
    · rw [abs_of_nonneg (by omega)]
      omega
    · push_cast
      linarith
  · have low : 0 ≤ ⌊2 * (x + 1 - s)⌋ := Int.floor_nonneg.mpr (by linarith)
    have high : ⌊2 * (x + 1 - s)⌋ ≤ 2 * x + 2 :=
      Int.cast_le.mp ((Int.floor_le _).trans (by push_cast; linarith))
    rw [abs_of_nonneg low]
    omega
  · have := Int.floor_le (2 * (x + 1 - s))
    linarith

/-- A stretch reaches into the pixels that its rounded end lies beyond. -/
theorem Canvas.reaches_iff {start length : Float} {s d t : ℚ} (hs : HasValue start s)
    (hd : HasValue length d) (stop : HasValue (start + length) t) {i : ℕ} :
    Reaches start length i ↔ (|s| < limit ∧ |d| < limit ∧ 0 < d) ∧ s < i + 1 ∧ i < t := by
  have low : (⌊s⌋ ≤ (i : ℤ)) ↔ s < i + 1 := Int.floor_le_iff
  have high : ((i : ℤ) < ⌈t⌉) ↔ i < t := Int.lt_ceil
  unfold Reaches
  rw [hs.floor_eq, stop.ceil_eq, low, high, hasValue_zero.lt_iff hd]
  exact and_congr_left' (and_congr hs.isFinite_iff (and_congr_left' hd.isFinite_iff))

/-- A stretch between two edges reaches into a pixel between them, and into none
before the first. -/
theorem Canvas.reaches_between {a b : Float} {s e : ℚ} (ha : HasValue a s) (hb : HasValue b e)
    (s_nonneg : 0 ≤ s) (e_nonneg : 0 ≤ e) (s_le : s ≤ 2 ^ 16) (e_le : e ≤ 2 ^ 16) {x : ℕ}
    (small : x ≤ 2 ^ 50) :
    (s ≤ x → x + 1 ≤ e → Reaches a (b - a) x) ∧ (x + 1 ≤ s → ¬ Reaches a (b - a) x) := by
  have inside {q : ℚ} (nonneg : 0 ≤ q) (le : q ≤ 2 ^ 16) : |q| < limit := by
    rw [abs_of_nonneg nonneg]
    exact le.trans_lt (two_pow_lt_limit (by norm_num))
  have length := hb.sub ha (inside e_nonneg e_le) (inside s_nonneg s_le)
  have size : |nearest (e - s)| < limit := by
    refine lt_of_le_of_lt ?_ (two_pow_lt_limit (n := 16) (by norm_num))
    rw [abs_le, neg_le, ← nearest_neg]
    constructor <;> exact nearest_le_two_pow (by norm_num) (by linarith)
  rw [reaches_iff ha length (ha.add length (inside s_nonneg s_le) size)]
  refine ⟨fun le far => ?_, fun before => ?_⟩
  · have positive : 1 ≤ nearest (e - s) := le_nearest kept_one one_le_limit (by linarith)
    exact ⟨⟨inside s_nonneg s_le, size, one_pos.trans_le positive⟩, by linarith,
      lt_nearest_add small s_nonneg le far⟩
  · exact fun reaches => before.not_gt reaches.2.1

-- =============================================================== layouts

namespace Grid.Layout

variable {α : Type} [Scalar α]

/-- An edge of a row's own beats lies inside a column. -/
def Splits (l : Layout α) (row x : ℕ) : Prop :=
  Scalar.ofNat x < (l.rowExtent row).1 ∧ (l.rowExtent row).1 < Scalar.ofNat (x + 1)
    ∨ Scalar.ofNat x < (l.rowExtent row).2 ∧ (l.rowExtent row).2 < Scalar.ofNat (x + 1)

/-- A row reaches into a line of pixels. -/
def Covers (l : Layout α) (row y : ℕ) : Prop := Reaches (l.rowTop row) l.rowHeight y

instance (l : Layout α) (row y : ℕ) : Decidable (l.Covers row y) :=
  inferInstanceAs (Decidable (Reaches _ _ _))

/-- Two rows reach into a line of pixels. -/
def Shares (l : Layout α) (row y : ℕ) : Prop :=
  l.Covers row y ∧ row + 1 < l.rows ∧ l.Covers (row + 1) y

end Grid.Layout

namespace Painter

open Grid (Layout)

section

variable {α : Type} [Scalar α] {c : Canvas} {l : Layout α} {row x y : ℕ}

/-- A row does not paint beside itself. -/
theorem pixel?_paintRow_of_not_covers (hx : x < c.width) (hy : y < c.height)
    (beside : ¬ l.Covers row y) : (paintRow c l row).pixel? x y = c.pixel? x y := by
  have none (start length : α) :
      ¬ (Reaches start length x ∧ Reaches (l.rowTop row) l.rowHeight y) := fun both => beside both.2
  unfold paintRow
  dsimp only
  rw [Canvas.pixel?_fillRect, if_neg (none _ _), Canvas.pixel?_fillRect, if_neg (none _ _),
    Canvas.pixel?_fillRect _ _ _ _ _ _ hx hy, if_neg (none _ _)] <;> simpa

/-- Inside of a row the left margin is painted first, its band over that, and the
right margin last. -/
theorem pixel?_paintRow_of_covers (hx : x < c.width) (hy : y < c.height) (covers : l.Covers row y) :
    (paintRow c l row).pixel? x y =
      if Reaches (l.rowExtent row).2 (Scalar.ofNat c.width - (l.rowExtent row).2) x then
        some Palette.marginShade
      else if Reaches (l.rowExtent row).1 ((l.rowExtent row).2 - (l.rowExtent row).1) x then
        some (backgroundAt l row (l.rowExtent row).1)
      else if Reaches Scalar.zero (l.rowExtent row).1 x then some Palette.marginShade
      else c.pixel? x y := by
  have line : Reaches (l.rowTop row) l.rowHeight y := covers
  unfold paintRow
  dsimp only
  rw [Canvas.pixel?_fillRect, Canvas.pixel?_fillRect, Canvas.pixel?_fillRect _ _ _ _ _ _ hx hy]
  · simp only [line, and_true]
  all_goals simpa

theorem sameSize_rows (c : Canvas) (l : Layout α) (n : ℕ) :
    Canvas.SameSize ((List.range n).foldl (fun c row => paintRow c l row) c) c :=
  (Canvas.paints_foldl (fun row => paints_paintRow l row) _).size c

theorem sameSize_paintBar (c : Canvas) (l : Layout α) (bar : Waveform.Bar α) (byLevel : Bool) :
    Canvas.SameSize (paintBar c l bar byLevel) c :=
  (paints_paintBar l bar byLevel).size c

/-- A line of pixels stays as it was painted with the last row that reaches into
it. -/
theorem pixel?_rows {n : ℕ} (hx : x < c.width) (hy : y < c.height) (painted : row + 1 ≤ n)
    (alone : ∀ later, row < later → later < n → ¬ l.Covers later y) :
    ((List.range n).foldl (fun c row => paintRow c l row) c).pixel? x y
      = (paintRow ((List.range row).foldl (fun c row => paintRow c l row) c) l row).pixel? x y := by
  induction n, painted using Nat.le_induction with
  | base =>
    rw [List.range_succ, List.foldl_append]
    rfl
  | succ n after ih =>
    obtain ⟨same_width, same_height⟩ := sameSize_rows c l n
    rw [List.range_succ, List.foldl_append]
    refine (pixel?_paintRow_of_not_covers (same_width ▸ hx) (same_height ▸ hy)
      (alone n after (Nat.lt_succ_self n))).trans ?_
    exact ih fun later less below => alone later less (Nat.lt_succ_of_lt below)

end

/-- The colour of a row between its margins. -/
def rowShade (row : ℕ) : Rgb := if row % 2 = 1 then Palette.alternateRow else Palette.background

variable {l : Layout Float} {row : ℕ}

/-- The color of the background at a column, by the extent of the row. -/
theorem backgroundAt_eq {start stop p : ℚ} (extent : l.Extent row start stop) {x : Float}
    (hx : HasValue x p) :
    backgroundAt l row x = if p < start ∨ stop ≤ p then Palette.marginShade else rowShade row := by
  unfold backgroundAt rowShade
  dsimp only
  simp only [hx.lt_iff extent.first, extent.last.le_iff hx]

/-- Painting a row colours a line that it covers with its background, except for
a column that an edge splits. -/
theorem pixel?_paintRow (counted : l.Counted) {c : Canvas} (width : c.width = l.width) {x y : ℕ}
    (hx : x < c.width) (hy : y < c.height) (covers : l.Covers row y) (whole : ¬ l.Splits row x) :
    (paintRow c l row).pixel? x y = some (backgroundAt l row (Scalar.ofNat x)) := by
  obtain ⟨start, stop, extent⟩ := Grid.Layout.exists_extent counted row
  have narrow : c.width ≤ 2 ^ 14 := width ▸ l.isDrawable.width_le
  have small : x ≤ 2 ^ 50 := by omega
  have columns : HasValue (Scalar.ofNat c.width) c.width := hasValue_count (by omega)
  have column : HasValue (Scalar.ofNat x) x := hasValue_count (by omega)
  have next : HasValue (Scalar.ofNat (x + 1)) (x + 1 : ℕ) := hasValue_count (by omega)
  have beside {edge : Float} {e : ℚ} (he : HasValue edge e)
      (out : ¬ (Scalar.ofNat x < edge ∧ edge < Scalar.ofNat (x + 1))) : e ≤ x ∨ x + 1 ≤ e := by
    rw [column.lt_iff he, he.lt_iff next, not_and_or, not_lt, not_lt, Nat.cast_succ] at out
    exact out
  obtain ⟨start_out, stop_out⟩ := not_or.mp whole
  have band := Canvas.reaches_between extent.first extent.last extent.start_nonneg
    extent.stop_nonneg extent.start_le extent.stop_le small
  have after := Canvas.reaches_between extent.last columns extent.stop_nonneg
    (Nat.cast_nonneg c.width) extent.stop_le (by exact_mod_cast narrow.trans (by norm_num)) small
  rw [pixel?_paintRow_of_covers hx hy covers, backgroundAt_eq extent column,
    backgroundAt_eq extent extent.first]
  rcases beside extent.first start_out with from_start | before
  · rcases beside extent.last stop_out with past | until_stop
    · have reaches := after.1 past (by exact_mod_cast hx)
      rw [if_pos reaches, if_pos (Or.inr past)]
    · have inside : (x : ℚ) < stop := (lt_add_one _).trans_le until_stop
      rw [if_neg (after.2 until_stop), if_pos (band.1 from_start until_stop), if_neg, if_neg]
      · exact not_or.mpr ⟨from_start.not_gt, inside.not_ge⟩
      · exact not_or.mpr ⟨lt_irrefl _, (from_start.trans_lt inside).not_ge⟩
  · have lead : Reaches Scalar.zero (l.rowExtent row).1 x := by
      have finite : |start| < limit := by
        rw [abs_of_nonneg extent.start_nonneg]
        exact extent.start_le.trans_lt (two_pow_lt_limit (by norm_num))
      have sum := hasValue_zero.add extent.first abs_zero_lt_limit finite
      rw [zero_add, extent.first.nearest_eq] at sum
      have some_pixels : (x : ℚ) < start := (lt_add_one _).trans_le before
      rw [Canvas.reaches_iff hasValue_zero extent.first sum]
      exact ⟨⟨abs_zero_lt_limit, finite, (Nat.cast_nonneg x).trans_lt some_pixels⟩, by positivity,
        some_pixels⟩
    have ahead : (x : ℚ) < start := (lt_add_one _).trans_le before
    rw [if_neg (band.2 before), if_pos lead, ite_self, if_pos (Or.inl ahead)]

-- ============================================================ background

/-- A row that meets a later one in a line meets the next. -/
theorem covers_next {y later : ℕ} (here : l.Covers row y) (there : l.Covers later y)
    (less : row < later) (inside : later < l.rows) : l.Covers (row + 1) y := by
  obtain ⟨height, rows, nonneg, finite, few⟩ := l.exists_rowHeight
  have positive : 0 < height := (hasValue_zero.lt_iff rows).mp here.1.2.2
  have line {r : ℕ} (le : r ≤ l.rows) : l.Covers r y ↔
      (|Grid.Layout.top height r| < limit ∧ |height| < limit ∧ 0 < height)
        ∧ Grid.Layout.top height r < y + 1 ∧ y < nearest (Grid.Layout.top height r + height) := by
    have top := Grid.Layout.hasValue_rowTop rows nonneg finite (few positive) le
    exact Canvas.reaches_iff top rows
      (top.add_of_nonneg rows (Grid.Layout.top_nonneg nonneg r) nonneg)
  rw [line (by omega)] at here there ⊢
  have above : Grid.Layout.top height row ≤ Grid.Layout.top height (row + 1) :=
    Grid.Layout.top_mono nonneg (Nat.le_succ row)
  have below : Grid.Layout.top height (row + 1) ≤ Grid.Layout.top height later :=
    Grid.Layout.top_mono nonneg less
  have far := (le_abs_self _).trans_lt there.1.1
  refine ⟨⟨?_, here.1.2⟩, below.trans_lt there.2.1, ?_⟩
  · rw [abs_of_nonneg (Grid.Layout.top_nonneg nonneg _)]
    exact below.trans_lt far
  · exact here.2.2.trans_le (nearest_mono (add_le_add_left above height))

/-- The background of a pixel that is in one row only and not cut by the edge of
its band. -/
theorem pixel?_paintBackground (counted : l.Counted) {c : Canvas} (width : c.width = l.width)
    {x y : ℕ} (hx : x < c.width) (hy : y < c.height) (inside : row < l.rows)
    (covers : l.Covers row y) (whole : ¬ l.Splits row x) (alone : ¬ l.Shares row y) :
    (paintBackground c l).pixel? x y = some (backgroundAt l row (Scalar.ofNat x)) := by
  obtain ⟨same_width, same_height⟩ := sameSize_rows (c.clear Palette.background) l row
  have last := pixel?_rows (c := c.clear Palette.background) hx hy inside
    fun later less below there =>
      alone ⟨covers, by omega, covers_next covers there less below⟩
  exact last.trans (pixel?_paintRow counted (same_width.trans width) (same_width ▸ hx)
    (same_height ▸ hy) covers whole)

-- ================================================================== bars

/-- The column of a bar is one pixel wide. -/
theorem column_eq_of_reaches {column : ℤ} {x : ℕ} (small : x ≤ 2 ^ 50)
    (h : Reaches (Scalar.ofInt column : Float) Scalar.one x) : column = x := by
  have place := hasValue_ofInt column
  have finite := place.isFinite_iff.mp h.1.1
  rw [Canvas.reaches_iff place hasValue_one
    (place.add hasValue_one finite abs_one_lt_limit)] at h
  obtain ⟨-, low, high⟩ := h
  have held {n : ℤ} (digits : |n| ≤ 2 ^ 53) : Kept (n : ℚ) ∧ |(n : ℚ)| ≤ limit :=
    ⟨kept_intCast digits, (abs_intCast_lt_limit digits).le⟩
  obtain ⟨kept_here, size_here⟩ := held (n := x) (by rw [abs_of_nonneg (by omega)]; omega)
  obtain ⟨kept_next, size_next⟩ := held (n := x + 1) (by rw [abs_of_nonneg (by omega)]; omega)
  obtain ⟨kept_before, size_before⟩ := held (n := x - 1) (by rw [abs_le]; omega)
  rcases lt_trichotomy column x with before | here | beyond
  · have le : nearest column ≤ (x - 1 : ℤ) :=
      nearest_le kept_before size_before (Int.cast_le.mpr (by omega))
    have still := nearest_le (q := nearest column + 1) kept_here size_here
      (by push_cast at le ⊢; linarith)
    exact absurd high (not_lt.mpr still)
  · exact here
  · have le : ((x + 1 : ℤ) : ℚ) ≤ nearest column :=
      le_nearest kept_next size_next (Int.cast_le.mpr (by omega))
    push_cast at le
    exact absurd low (not_lt.mpr le)

/-- A bar of no level paints nothing but what clears its column. -/
theorem pixel?_paintBar {bar : Waveform.Bar Float} (flat : HasValue bar.level 0) (byLevel : Bool)
    {c : Canvas} {x y : ℕ} (hx : x < c.width) (hy : y < c.height) :
    (paintBar c l bar byLevel).pixel? x y
      = if Reaches (Scalar.ofInt bar.column : Float) Scalar.one x ∧ l.Covers bar.position.row y then
          some (backgroundAt l bar.position.row (Scalar.ofInt bar.column))
        else c.pixel? x y := by
  obtain ⟨height, rows, nonneg, finite, -⟩ := l.exists_rowHeight
  have share : HasValue barHeight (Scalar.value (barHeight : Float)) :=
    hasValue_of_isFinite (by decide +kernel)
  have two : HasValue (Scalar.ofNat 2 : Float) (2 : ℕ) := hasValue_count (by norm_num)
  have zero := abs_zero_lt_limit
  have two_inside : |((2 : ℕ) : ℚ)| < limit := abs_intCast_lt_limit (n := 2) (by decide)
  -- nothing of nothing is nothing, however it is rounded
  have scaled := flat.mul rows zero (by rwa [abs_of_nonneg nonneg])
  rw [zero_mul, nearest_zero] at scaled
  have part := scaled.mul share zero (share.isFinite_iff.mp (by decide +kernel))
  rw [zero_mul, nearest_zero] at part
  have half := part.div two zero two_inside (by norm_num)
  rw [zero_div, nearest_zero] at half
  have high := half.mul two zero two_inside
  rw [zero_mul, nearest_zero] at high
  unfold paintBar
  dsimp only
  rw [Canvas.pixel?_fillRect, if_neg, Canvas.pixel?_fillRect _ _ _ _ _ _ hx hy]
  · rfl
  · exact fun both => lt_irrefl (0 : ℚ) ((hasValue_zero.lt_iff high).mp both.2.1.2.2)
  all_goals simpa

theorem sameSize_paintBackground (c : Canvas) (l : Layout Float) :
    Canvas.SameSize (paintBackground c l) c :=
  (paints_paintBackground l).size c

/-- A freshly painted row shows the colours that bars are cleared with, but for
columns that an edge of the row splits and lines that the next row reaches
into as well. So a bar without a level changes nothing but such pixels of its
own column and row, and nothing at all if there are none. -/
theorem paintBar_paintBackground (counted : l.Counted) {c : Canvas} (width : c.width = l.width) :
    (∀ row x y, row < l.rows → x < c.width → y < c.height → l.Covers row y →
      ¬ l.Splits row x → ¬ l.Shares row y →
        (paintBackground c l).pixel? x y = some (backgroundAt l row (Scalar.ofNat x)))
    ∧ ∀ (bar : Waveform.Bar Float) (byLevel : Bool), HasValue bar.level 0 →
      bar.position.row < l.rows →
        (∀ x y, x < c.width → y < c.height →
          (paintBar (paintBackground c l) l bar byLevel).pixel? x y = (paintBackground c l).pixel? x y
            ∨ bar.column = x ∧ l.Covers bar.position.row y
              ∧ (l.Splits bar.position.row x ∨ l.Shares bar.position.row y))
        ∧ ((∀ x : ℕ, bar.column = x → ¬ l.Splits bar.position.row x) →
          (∀ y, ¬ l.Shares bar.position.row y) →
            paintBar (paintBackground c l) l bar byLevel = paintBackground c l) := by
  have shows {row x y : ℕ} (inside : row < l.rows) (hx : x < c.width) (hy : y < c.height) :=
    pixel?_paintBackground counted width hx hy inside
  refine ⟨fun row x y => shows, fun bar byLevel flat inside => ?_⟩
  obtain ⟨same_width, same_height⟩ := sameSize_paintBackground c l
  have cleared : ∀ x y, x < c.width → y < c.height →
      (paintBar (paintBackground c l) l bar byLevel).pixel? x y = (paintBackground c l).pixel? x y
        ∨ bar.column = x ∧ l.Covers bar.position.row y
          ∧ (l.Splits bar.position.row x ∨ l.Shares bar.position.row y) := by
    intro x y hx hy
    rw [pixel?_paintBar flat byLevel (same_width ▸ hx) (same_height ▸ hy)]
    split_ifs with painted
    · have narrow : l.width ≤ 2 ^ 14 := l.isDrawable.width_le
      have column := column_eq_of_reaches (by omega) painted.1
      by_cases exempt : l.Splits bar.position.row x ∨ l.Shares bar.position.row y
      · exact Or.inr ⟨column, painted.2, exempt⟩
      · obtain ⟨whole, alone⟩ := not_or.mp exempt
        rw [shows inside hx hy painted.2 whole alone, column]
        exact Or.inl rfl
    · exact Or.inl rfl
  refine ⟨cleared, fun whole alone => ?_⟩
  refine Canvas.eq_of_pixel? (sameSize_paintBar _ l bar byLevel) fun x y hx hy => ?_
  obtain ⟨bar_width, bar_height⟩ := sameSize_paintBar (paintBackground c l) l bar byLevel
  rcases cleared x y (by omega) (by omega) with same | ⟨column, -, splits | shares⟩
  · exact same
  · exact absurd splits (whole x column)
  · exact absurd shares (alone y)

/-- Two rows of two beats with a margin of one, in whole pixels. -/
def squareGrid : Layout Float :=
  ⟨⟨[2, 2], 1, 4, 4⟩, Option.isNone_iff_eq_none.mp (by decide +kernel)⟩

/-- A bar without a level in the first row. -/
def flatBar (column : ℤ) : Waveform.Bar Float := ⟨⟨0, 0⟩, column, Scalar.zero, .home⟩

/-- On a grid whose edges lie on pixels a bar without height leaves the background. -/
theorem paintBar_squareGrid :
    paintBar (paintBackground (.blank 4 4) squareGrid) squareGrid (flatBar 2) false
      = paintBackground (.blank 4 4) squareGrid := by
  have counted : ∀ beats ∈ [2, 2], beats < 2 ^ 32 := by decide
  have whole : ¬ squareGrid.Splits 0 2 := by
    unfold Layout.Splits
    decide +kernel
  have stop : Scalar.ceil (squareGrid.rowTop 0 + squareGrid.rowHeight) = 2 := by decide +kernel
  have start : Scalar.floor (squareGrid.rowTop 1) = 2 := by decide +kernel
  have alone : ∀ y, ¬ squareGrid.Shares 0 y := by
    intro y shares
    have above := shares.1.2.2
    have below : Scalar.floor (squareGrid.rowTop 1) ≤ y := shares.2.2.2.1
    omega
  have restores := (paintBar_paintBackground (l := squareGrid) counted (c := .blank 4 4) rfl).2
    (flatBar 2) false hasValue_zero (show 0 < 2 by decide)
  refine restores.2 (fun x here => ?_) alone
  obtain rfl : 2 = x := Int.ofNat.inj here
  exact whole

/-- A grid whose margin ends inside a column. -/
def splitGrid : Layout Float :=
  ⟨⟨[2], 0.5, 4, 1⟩, Option.isNone_iff_eq_none.mp (by decide +kernel)⟩

/-- A grid with a line of pixels that two rows reach into. -/
def sharedGrid : Layout Float :=
  ⟨⟨[1, 1], 0, 1, 3⟩, Option.isNone_iff_eq_none.mp (by decide +kernel)⟩

/-- Clearing a bar can leave the shade of the margin where the background shows
the row, and the row where it shows the next one. -/
theorem paintBar_splitGrid :
    (paintBackground (.blank 4 1) splitGrid).pixel? 0 0 = some Palette.background
      ∧ (paintBar (paintBackground (.blank 4 1) splitGrid) splitGrid (flatBar 0) false).pixel? 0 0
        = some Palette.marginShade
      ∧ (paintBackground (.blank 1 3) sharedGrid).pixel? 0 1 = some Palette.alternateRow
      ∧ (paintBar (paintBackground (.blank 1 3) sharedGrid) sharedGrid (flatBar 0) false).pixel? 0 1
        = some Palette.background := by
  decide +kernel

end Painter

end Metrograph
