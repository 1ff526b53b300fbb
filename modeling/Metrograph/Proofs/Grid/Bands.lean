/-
Where the bands of a grid lie, as they come out in binary64.

# Along a row

The scale divides the width of the canvas by the beats of the longest row
and of its margins. Of these the margin and each row are a part, so they
take no more pixels than there are, up to rounding (`mul_nearest_div_le`):
the edges of every row are finite and not far beyond the canvas
(`exists_extent`). A margin so large that its double is out of range makes
the scale zero, and the edges with it.

# From row to row

The tops of the rows are multiples of their height, rounded, so they do
not decrease from row to row (`top_mono`), and they are numbers whenever
rows have a height at all (`hasValue_rowTop`).
-/
import Metrograph.Proofs.Grid.Window
import Metrograph.Proofs.Scalar.Rounding

namespace Metrograph.Grid.Layout

open Binary64

-- ============================================================= the scale

theorem foldl_max_le {rows : List ℕ} {m bound : ℕ} (first : m ≤ bound)
    (others : ∀ beats ∈ rows, beats ≤ bound) : rows.foldl max m ≤ bound := by
  induction rows generalizing m with
  | nil => exact first
  | cons beats rest ih =>
    exact ih (max_le first (others beats List.mem_cons_self))
      fun b hb => others b (List.mem_cons_of_mem beats hb)

/-- What is no more than the beats of a row and its margins takes no more pixels
than there are, up to rounding. -/
theorem mul_nearest_div_le {part beats width : ℚ} (nonneg : 0 ≤ part) (le : part ≤ beats)
    (some_beats : 1 ≤ beats) (finite : beats < limit) (narrow : width ≤ 2 ^ 14) :
    part * nearest (width / beats) ≤ 2 ^ 15 := by
  have low : (2 : ℚ) ^ Int.log 2 beats ≤ beats :=
    Int.zpow_log_le_self one_lt_two (one_pos.trans_le some_beats)
  have high : beats < (2 : ℚ) ^ (Int.log 2 beats + 1) := Int.lt_zpow_succ_log_self one_lt_two beats
  generalize Int.log 2 beats = k at low high
  have least : 0 ≤ k := by
    have less : (2 : ℚ) ^ (0 : ℤ) < 2 ^ (k + 1) := by
      rw [zpow_zero]
      exact some_beats.trans_lt high
    have := (zpow_lt_zpow_iff_right₀ one_lt_two).mp less
    omega
  have most : k < 1024 := two_zpow_lt_limit_iff.mp (low.trans_lt finite)
  have share : nearest (width / beats) ≤ 2 ^ (14 - k) := by
    refine nearest_le_two_zpow (by omega) (by omega) ?_
    rw [div_le_iff₀ (one_pos.trans_le some_beats)]
    calc width ≤ 2 ^ (14 - k) * 2 ^ k := by
          rw [← zpow_add₀ two_ne_zero, sub_add_cancel]
          exact_mod_cast narrow
      _ ≤ 2 ^ (14 - k) * beats := mul_le_mul_of_nonneg_left low (two_zpow_pos _).le
  calc part * nearest (width / beats) ≤ part * 2 ^ (14 - k) :=
        mul_le_mul_of_nonneg_left share nonneg
    _ ≤ 2 ^ (k + 1) * 2 ^ (14 - k) :=
        mul_le_mul_of_nonneg_right (le.trans high.le) (two_zpow_pos _).le
    _ = 2 ^ 15 := by
        have sum : k + 1 + (14 - k) = (15 : ℕ) := by push_cast; ring
        rw [← zpow_add₀ two_ne_zero, sum, zpow_natCast]

/-- The width and the height of a canvas are held. -/
theorem hasValue_pixels {n : ℕ} (le : n ≤ maxCanvas) :
    HasValue (Scalar.ofNat n) n ∧ |(n : ℚ)| < limit := by
  have few : n ≤ 2 ^ 53 := le.trans (by decide)
  exact ⟨hasValue_count few, abs_intCast_lt_limit (abs_natCast_le few)⟩

variable (l : Layout Float)

/-- Row lengths are held in 32 bits. -/
def Counted : Prop := ∀ beats ∈ l.rowBeats, beats < 2 ^ 32

/-- The margin of a layout is finite and not below zero. -/
theorem hasValue_margin : HasValue l.margin (Scalar.value l.margin)
    ∧ 0 ≤ Scalar.value l.margin ∧ Scalar.value l.margin < limit := by
  have finite := l.isDrawable.margin_finite
  have margin := hasValue_of_isFinite finite
  have nonneg := not_lt.mp fun less =>
    l.isDrawable.margin_nonneg ((margin.lt_iff hasValue_zero).mpr less)
  exact ⟨margin, nonneg, (le_abs_self _).trans_lt (margin.isFinite_iff.mp finite)⟩

variable {l}

/-- A row has no more beats than can be counted. -/
theorem longestRow_le (counted : l.Counted) : l.longestRow ≤ 2 ^ 53 :=
  foldl_max_le (by norm_num) fun beats member => (counted beats member).le.trans (by norm_num)

variable (l) in
/-- The beats from one side of the canvas to the other: the longest row and both
its margins. -/
def beatsAcross : ℚ := nearest (l.longestRow + nearest (2 * Scalar.value l.margin))

/-- The beats across the canvas are computed as `beatsAcross` says. -/
theorem hasValue_beatsAcross (counted : l.Counted) :
    HasValue (Scalar.ofNat l.longestRow + Scalar.ofNat 2 * l.margin) l.beatsAcross := by
  obtain ⟨margin, nonneg, finite⟩ := l.hasValue_margin
  unfold beatsAcross
  generalize Scalar.value l.margin = m at margin nonneg finite ⊢
  have longest := hasValue_count (longestRow_le counted)
  have two : HasValue (Scalar.ofNat 2) (2 : ℕ) := hasValue_count (by norm_num)
  have margins := two.mul margin (abs_intCast_lt_limit (n := 2) (by decide))
    (by rwa [abs_of_nonneg nonneg])
  rw [Nat.cast_ofNat] at margins
  exact longest.add_of_nonneg margins (Nat.cast_nonneg _)
    (nearest_nonneg (mul_nonneg zero_le_two nonneg))

/-- The longest row fits across. -/
theorem longestRow_le_beatsAcross (counted : l.Counted) : l.longestRow ≤ l.beatsAcross := by
  obtain ⟨-, nonneg, -⟩ := l.hasValue_margin
  have longest := hasValue_count (longestRow_le counted)
  exact le_nearest longest.kept longest.size_le
    (le_add_of_nonneg_right (nearest_nonneg (mul_nonneg zero_le_two nonneg)))

theorem margin_le_beatsAcross (l : Layout Float) : Scalar.value l.margin ≤ l.beatsAcross := by
  obtain ⟨margin, nonneg, -⟩ := l.hasValue_margin
  have double : Scalar.value l.margin ≤ nearest (2 * Scalar.value l.margin) :=
    le_nearest margin.kept margin.size_le (by linarith)
  exact le_nearest margin.kept margin.size_le
    (double.trans (le_add_of_nonneg_left (Nat.cast_nonneg l.longestRow)))

/-- At least one beat goes across. -/
theorem one_le_beatsAcross (counted : l.Counted) : 1 ≤ l.beatsAcross :=
  (Nat.one_le_cast.mpr l.longestRow_pos).trans (longestRow_le_beatsAcross counted)

/-- Pixels for one beat, such that neither the margin nor a row takes much more
of them than there are. -/
theorem exists_pixelsPerBeat (counted : l.Counted) :
    ∃ d, HasValue l.pixelsPerBeat d ∧ 0 ≤ d ∧ d < limit
      ∧ Scalar.value l.margin * d ≤ 2 ^ 15 ∧ ∀ beats ≤ l.longestRow, beats * d ≤ 2 ^ 15 := by
  obtain ⟨-, nonneg, -⟩ := l.hasValue_margin
  have total := hasValue_beatsAcross counted
  have rows_le := longestRow_le_beatsAcross counted
  have margin_le := l.margin_le_beatsAcross
  have some_beats := one_le_beatsAcross counted
  generalize l.beatsAcross = q at total rows_le margin_le some_beats
  obtain ⟨width, wide⟩ := hasValue_pixels l.isDrawable.width_le
  have narrow : (l.width : ℚ) ≤ 2 ^ 14 := by exact_mod_cast l.isDrawable.width_le
  by_cases infinite : q < limit
  · have bounded {part : ℚ} (nonneg : 0 ≤ part) (le : part ≤ q) :=
      mul_nearest_div_le nonneg le some_beats infinite narrow
    have share := bounded zero_le_one some_beats
    rw [one_mul] at share
    refine ⟨nearest (l.width / q), width.div total wide ?_ ?_, ?_, ?_, bounded nonneg margin_le, ?_⟩
    · rwa [abs_of_pos (one_pos.trans_le some_beats)]
    · exact (one_pos.trans_le some_beats).ne'
    · exact nearest_nonneg (div_nonneg (Nat.cast_nonneg _) (zero_le_one.trans some_beats))
    · exact share.trans_lt (two_pow_lt_limit (by norm_num))
    · exact fun beats le => bounded (Nat.cast_nonneg beats) ((Nat.cast_le.mpr le).trans rows_le)
  · refine ⟨0, width.div_infinite total wide ?_, le_rfl, limit_pos, ?_, fun beats _ => ?_⟩
    · rwa [abs_of_pos (one_pos.trans_le some_beats)]
    · rw [mul_zero]
      positivity
    · rw [mul_zero]
      positivity

-- ============================================================= the edges

variable (l) in
/-- Where a row's own beats start and end. -/
structure Extent (row : ℕ) (start stop : ℚ) : Prop where
  first : HasValue (l.rowExtent row).1 start
  last : HasValue (l.rowExtent row).2 stop
  start_nonneg : 0 ≤ start
  stop_nonneg : 0 ≤ stop
  start_le : start ≤ 2 ^ 16
  stop_le : stop ≤ 2 ^ 16

/-- The beats of a row are held. -/
theorem beats_le (counted : l.Counted) (row : ℕ) :
    l.rowBeats.getD (row % l.rows) 0 ≤ l.longestRow
      ∧ l.rowBeats.getD (row % l.rows) 0 ≤ 2 ^ 53 := by
  have le := l.rowBeats_le_longestRow (Nat.mod_lt row l.rows_pos)
  exact ⟨le, le.trans (longestRow_le counted)⟩

/-- A row starts behind the margin, and ends so many pixels further on. -/
theorem hasValue_rowExtent (counted : l.Counted) {d : ℚ} (scale : HasValue l.pixelsPerBeat d)
    (nonneg : 0 ≤ d) (finite : d < limit) (row : ℕ) :
    HasValue (l.rowExtent row).1 (nearest (Scalar.value l.margin * d))
      ∧ HasValue (l.rowExtent row).2 (nearest (nearest (Scalar.value l.margin * d)
        + nearest (l.rowBeats.getD (row % l.rows) 0 * d))) := by
  obtain ⟨margin, margin_nonneg, margin_finite⟩ := l.hasValue_margin
  have small := (beats_le counted row).2
  have fd : |d| < limit := by rwa [abs_of_nonneg nonneg]
  have start := margin.mul scale (by rwa [abs_of_nonneg margin_nonneg]) fd
  have length := (hasValue_count small).mul scale (abs_intCast_lt_limit (abs_natCast_le small)) fd
  exact ⟨start, start.add_of_nonneg length (nearest_nonneg (mul_nonneg margin_nonneg nonneg))
    (nearest_nonneg (mul_nonneg (Nat.cast_nonneg _) nonneg))⟩

/-- Every row has an extent: its ends are defined, and not far out. -/
theorem exists_extent (counted : l.Counted) (row : ℕ) : ∃ start stop, l.Extent row start stop := by
  obtain ⟨-, margin_nonneg, -⟩ := l.hasValue_margin
  obtain ⟨d, scale, nonneg, finite, margin_le, row_le⟩ := exists_pixelsPerBeat counted
  obtain ⟨start, stop⟩ := hasValue_rowExtent counted scale nonneg finite row
  have start_nonneg := nearest_nonneg (mul_nonneg margin_nonneg nonneg)
  have length_nonneg := nearest_nonneg
    (mul_nonneg (Nat.cast_nonneg (l.rowBeats.getD (row % l.rows) 0)) nonneg)
  have start_le := nearest_le_two_pow (by norm_num) margin_le
  have length_le := nearest_le_two_pow (by norm_num) (row_le _ (beats_le counted row).1)
  have stop_le := nearest_le_two_pow (n := 16) (by norm_num)
    ((add_le_add start_le length_le).trans (by norm_num))
  exact ⟨_, _, start, stop, start_nonneg, nearest_nonneg (add_nonneg start_nonneg length_nonneg),
    start_le.trans (by norm_num), stop_le⟩

-- ============================================================= the lines

/-- The top of a row, where rows are as high as `height`. -/
def top (height : ℚ) (row : ℕ) : ℚ := nearest (nearest row * height)

theorem top_nonneg {height : ℚ} (nonneg : 0 ≤ height) (row : ℕ) : 0 ≤ top height row :=
  nearest_nonneg (mul_nonneg (nearest_nonneg (Nat.cast_nonneg row)) nonneg)

/-- Rows lie below each other. -/
theorem top_mono {height : ℚ} (nonneg : 0 ≤ height) : Monotone (top height) := fun _ _ le =>
  nearest_mono (mul_le_mul_of_nonneg_right (nearest_mono (Nat.cast_le.mpr le)) nonneg)

theorem hasValue_rows : HasValue (Scalar.ofNat l.rows) (nearest l.rows) := hasValue_ofInt l.rows

variable (l) in
/-- The height of a row is finite, perhaps zero. -/
theorem exists_rowHeight : ∃ height, HasValue l.rowHeight height ∧ 0 ≤ height ∧ height < limit
    ∧ (0 < height → nearest l.rows < limit) := by
  obtain ⟨height, high⟩ := hasValue_pixels l.isDrawable.height_le
  have some_rows : 1 ≤ nearest l.rows :=
    le_nearest kept_one one_le_limit (Nat.one_le_cast.mpr l.rows_pos)
  have size : |nearest l.rows| = nearest l.rows := abs_of_pos (one_pos.trans_le some_rows)
  by_cases finite : nearest l.rows < limit
  · have least : 0 ≤ (l.height : ℚ) / nearest l.rows :=
      div_nonneg (Nat.cast_nonneg _) (zero_le_one.trans some_rows)
    have most : (l.height : ℚ) / nearest l.rows ≤ 2 ^ 14 :=
      (div_le_self (Nat.cast_nonneg _) some_rows).trans (by exact_mod_cast l.isDrawable.height_le)
    refine ⟨nearest (l.height / nearest l.rows), height.div hasValue_rows high (by rwa [size]) ?_,
      nearest_nonneg least, ?_, fun _ => finite⟩
    · exact (one_pos.trans_le some_rows).ne'
    · exact (nearest_le_two_pow (by norm_num) most).trans_lt (two_pow_lt_limit (by norm_num))
  · exact ⟨0, height.div_infinite hasValue_rows high (by rwa [size]), le_rfl, limit_pos,
      fun less => absurd less (lt_irrefl 0)⟩

/-- The top of a row is computed as `top` says. -/
theorem hasValue_rowTop {height : ℚ} (rows : HasValue l.rowHeight height) (nonneg : 0 ≤ height)
    (finite : height < limit) (few : nearest l.rows < limit) {row : ℕ} (le : row ≤ l.rows) :
    HasValue (l.rowTop row) (top height row) := by
  have count : HasValue (Scalar.ofNat row) (nearest row) := hasValue_ofInt row
  refine count.mul rows ?_ (by rwa [abs_of_nonneg nonneg])
  rw [abs_of_nonneg (nearest_nonneg (Nat.cast_nonneg row))]
  exact (nearest_mono (Nat.cast_le.mpr le)).trans_lt few

end Metrograph.Grid.Layout
