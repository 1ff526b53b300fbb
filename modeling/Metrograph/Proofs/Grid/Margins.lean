/-
How long a margin may be for a grid to be drawn, in binary64.

# The scale

A margin only has to be finite. It counts twice in the beats that share the
width, and from `2 ^ 1023` on twice the margin is out of range: the beats
across the canvas become infinite and no pixels are left for one. Below that
the longest row does not carry the sum out of range
(`beatsAcross_lt_limit_iff`), and some pixels are left for a beat
(`pixelsPerBeat_pos_iff`).

# The rows

The beats of a row are added to the end of its margin, in pixels, and are
rounded away if they come to less than half a unit in its last place. Margin
and row go by the same scale, so which of the two it is shows in beats, up to
what rounding does to both: a row is drawn with a margin of up to `2 ^ 51`
times its length (`start_lt_stop`), and has no extent with one of `2 ^ 55`
times its length or more (`stop_eq_start`).
-/
import Metrograph.Proofs.Config.Independence
import Metrograph.Proofs.Grid.Bands
import Metrograph.Proofs.Scalar.Units

namespace Metrograph.Grid.Layout

open Binary64

variable {l : Layout Float}

-- ============================================================= the scale

theorem one_le_width (l : Layout Float) : (1 : ℚ) ≤ l.width := by
  exact_mod_cast Nat.one_le_iff_ne_zero.mpr l.isDrawable.width_ne_zero

/-- The beats across the canvas are out of range exactly if twice the margin is. -/
theorem beatsAcross_lt_limit_iff (counted : l.Counted) :
    l.beatsAcross < limit ↔ Scalar.value l.margin < 2 ^ (1023 : ℤ) := by
  obtain ⟨margin, nonneg, -⟩ := l.hasValue_margin
  unfold beatsAcross
  generalize Scalar.value l.margin = m at margin nonneg
  have double := limit_eq_double
  constructor
  · intro inside
    by_contra large
    have margins : nearest (2 * m) = limit := nearest_of_limit_le (by linarith)
    rw [margins, nearest_of_limit_le (le_add_of_nonneg_left (Nat.cast_nonneg _))] at inside
    exact lt_irrefl _ inside
  · intro small
    have from_zero : 0 ≤ 2 * m := mul_nonneg zero_le_two nonneg
    have inside : 2 * m < limit := by linarith
    have margins : nearest (2 * m) = 2 * m := by
      refine nearest_eq_self margin.kept.double ?_
      rw [abs_of_nonneg from_zero]
      exact inside.le
    rw [margins, add_comm]
    exact nearest_add_lt_limit margin.kept.double inside (Nat.cast_nonneg _)
      (by exact_mod_cast longestRow_le counted)

/-- Pixels are left for a beat exactly if twice the margin is within the range. -/
theorem pixelsPerBeat_pos_iff (counted : l.Counted) {d : ℚ} (scale : HasValue l.pixelsPerBeat d) :
    0 < d ↔ Scalar.value l.margin < 2 ^ (1023 : ℤ) := by
  have total := hasValue_beatsAcross counted
  have some_beats := one_le_beatsAcross counted
  obtain ⟨width, wide⟩ := hasValue_pixels l.isDrawable.width_le
  rw [← beatsAcross_lt_limit_iff counted]
  generalize l.beatsAcross = q at total some_beats
  have positive : 0 < q := one_pos.trans_le some_beats
  by_cases inside : q < limit
  · have quotient := width.div total wide (by rwa [abs_of_pos positive]) positive.ne'
    obtain rfl : d = nearest (l.width / q) := scale.value_eq.symm.trans quotient.value_eq
    have least : (2 : ℚ) ^ (-1024 : ℤ) ≤ l.width / q := by
      have beats : q ≤ 2 ^ (1024 : ℤ) := by
        unfold limit at inside
        exact inside.le
      rw [le_div_iff₀ positive]
      calc (2 : ℚ) ^ (-1024 : ℤ) * q ≤ 2 ^ (-1024 : ℤ) * 2 ^ (1024 : ℤ) :=
            mul_le_mul_of_nonneg_left beats (two_zpow_pos _).le
        _ = 1 := by rw [← zpow_add₀ two_ne_zero, neg_add_cancel, zpow_zero]
        _ ≤ l.width := l.one_le_width
    exact iff_of_true ((two_zpow_pos (-1024)).trans_le
      (two_zpow_le_nearest (by norm_num) (by norm_num) least)) inside
  · have none := width.div_infinite total wide (by rwa [abs_of_pos positive])
    obtain rfl : d = 0 := scale.value_eq.symm.trans none.value_eq
    exact iff_of_false (lt_irrefl 0) inside

-- ============================================================== the rows

section Rows

variable {m b d : ℚ}

/-- A row ends further on than it starts if the margin is not much longer. -/
theorem start_lt_stop (kept : Kept d) (positive : 0 < d) (finite : d < limit) (some_beats : 1 ≤ b)
    (nonneg : 0 ≤ m) (le : m ≤ 2 ^ 51 * b) (inside : nearest (m * d) < limit) :
    nearest (m * d) < nearest (nearest (m * d) + nearest (b * d)) := by
  have length_pos : 0 < nearest (b * d) :=
    positive.trans_le (le_nearest kept (by rw [abs_of_pos positive]; exact finite.le)
      (le_mul_of_one_le_left positive.le some_beats))
  have start_nonneg := nearest_nonneg (mul_nonneg nonneg positive.le)
  rcases start_nonneg.eq_or_lt with none | start_pos
  · rwa [← none, zero_add, nearest_nearest]
  refine lt_nearest_add_unit (kept_nearest _) start_nonneg inside ?_
  have least := le_lastPlace (nearest (m * d))
  rcases le_abs_of_lastPlace start_pos.ne' with last | full
  · rw [last]
    exact (kept_nearest _).smallest_le length_pos
  · -- a shorter row and its margin would have a last place further to the right
    rw [abs_of_pos start_pos] at full
    generalize lastPlace (nearest (m * d)) = t at full least
    have most := two_zpow_lt_limit_iff.mp (full.trans_lt inside)
    by_contra short
    have row := lt_two_zpow_of_nearest least (by omega) (not_le.mp short)
    have start : m * d ≤ 2 ^ (t + 51) := by
      calc m * d ≤ 2 ^ 51 * b * d := mul_le_mul_of_nonneg_right le positive.le
        _ = 2 ^ 51 * (b * d) := mul_assoc _ _ _
        _ ≤ 2 ^ 51 * 2 ^ t := mul_le_mul_of_nonneg_left row.le (by positivity)
        _ = 2 ^ (t + 51) := two_pow_mul_two_zpow 51 t
    have bound := nearest_le_two_zpow (by omega) (by omega) start
    have := (zpow_le_zpow_iff_right₀ one_lt_two).mp (full.trans bound)
    omega

/-- A row ends where it starts if the margin is much longer. -/
theorem stop_eq_start (kept : Kept d) (positive : 0 < d) (some_beats : 1 ≤ b) (le : 2 ^ 55 * b ≤ m)
    (inside : nearest (m * d) < limit) :
    nearest (nearest (m * d) + nearest (b * d)) = nearest (m * d) := by
  have row_pos : 0 < b * d := mul_pos (one_pos.trans_le some_beats) positive
  have scaled : 2 ^ 55 * (b * d) ≤ m * d := by
    rw [← mul_assoc]
    exact mul_le_mul_of_nonneg_right le positive.le
  -- far above the smallest number there are places further to the right for the row
  have low : (2 : ℚ) ^ (-1019 : ℤ) ≤ nearest (m * d) := by
    refine two_zpow_le_nearest (by norm_num) (by norm_num) (le_trans ?_ scaled)
    calc (2 : ℚ) ^ (-1019 : ℤ) = 2 ^ 55 * 2 ^ (-1074 : ℤ) := by
          rw [two_pow_mul_two_zpow]
          rfl
      _ ≤ 2 ^ 55 * (b * d) := mul_le_mul_of_nonneg_left ((kept.smallest_le positive).trans
          (le_mul_of_one_le_left positive.le some_beats)) (by positivity)
  have start_pos := (two_zpow_pos (-1019)).trans_le low
  refine nearest_add_eq_self (kept_nearest _) start_pos inside.le (nearest_nonneg row_pos.le) ?_
  have high := abs_lt_of_lastPlace (nearest (m * d))
  have full := le_abs_of_lastPlace start_pos.ne'
  rw [abs_of_pos start_pos] at high full
  generalize lastPlace (nearest (m * d)) = t at high full
  have least := (zpow_lt_zpow_iff_right₀ one_lt_two).mp (low.trans_lt high)
  have most := two_zpow_lt_limit_iff.mp ((full.resolve_left (by omega)).trans_lt inside)
  have start := lt_two_zpow_of_nearest (by omega) (by omega) high
  have row : b * d ≤ 2 ^ (t - 2) := by
    have share : (2 : ℚ) ^ (t + 53) = 2 ^ 55 * 2 ^ (t - 2) := by
      rw [two_pow_mul_two_zpow]
      congr 1
      push_cast
      ring
    exact le_of_mul_le_mul_left ((scaled.trans start.le).trans_eq share) (by positivity)
  calc 2 * nearest (b * d) ≤ 2 * 2 ^ (t - 2) :=
        mul_le_mul_of_nonneg_left (nearest_le_two_zpow (by omega) (by omega) row) zero_le_two
    _ = 2 ^ (t - 2 + 1) := two_mul_two_zpow _
    _ < 2 ^ t := zpow_lt_zpow_right₀ one_lt_two (by omega)

end Rows

-- ============================================================== the grids

variable (l) in
/-- What of a grid is drawn, by the length of its margin. -/
structure Shown : Prop where
  scale_finite : l.pixelsPerBeat.isFinite = true
  scale_pos_iff : Scalar.zero < l.pixelsPerBeat ↔ Scalar.value l.margin < 2 ^ (1023 : ℤ)
  row_drawn : ∀ row, Scalar.value l.margin ≤ 2 ^ 51 * l.rowBeats.getD (row % l.rows) 0 →
    (l.rowExtent row).1 < (l.rowExtent row).2
  row_lost : ∀ row, 2 ^ 55 * l.rowBeats.getD (row % l.rows) 0 ≤ Scalar.value l.margin →
    ¬ (l.rowExtent row).1 < (l.rowExtent row).2

/-- A margin that is only so much longer than a row is far from the end of the
range. -/
theorem margin_lt_of_le (counted : l.Counted) {m : ℚ} {row : ℕ}
    (le : m ≤ 2 ^ 51 * l.rowBeats.getD (row % l.rows) 0) : m < 2 ^ (1023 : ℤ) := by
  have few : (l.rowBeats.getD (row % l.rows) 0 : ℚ) ≤ 2 ^ (53 : ℤ) := by
    exact_mod_cast (beats_le counted row).2
  calc m ≤ 2 ^ 51 * 2 ^ (53 : ℤ) := le.trans (mul_le_mul_of_nonneg_left few (by positivity))
    _ = 2 ^ (53 + (51 : ℕ) : ℤ) := two_pow_mul_two_zpow 51 53
    _ < 2 ^ (1023 : ℤ) := zpow_lt_zpow_right₀ one_lt_two (by norm_num)

/-- What a layout with counted rows shows is settled by its margin. -/
theorem shown_of_counted (counted : l.Counted) : l.Shown := by
  obtain ⟨-, nonneg, -⟩ := l.hasValue_margin
  obtain ⟨d, scale, scale_nonneg, finite, margin_le, -⟩ := exists_pixelsPerBeat counted
  have positive_iff := pixelsPerBeat_pos_iff counted scale
  have edges := hasValue_rowExtent counted scale scale_nonneg finite
  have inside : nearest (Scalar.value l.margin * d) < limit :=
    (nearest_le_two_pow (by norm_num) margin_le).trans_lt (two_pow_lt_limit (by norm_num))
  have some_beats (row : ℕ) : (1 : ℚ) ≤ l.rowBeats.getD (row % l.rows) 0 := by
    exact_mod_cast l.rowBeats_pos (Nat.mod_lt row l.rows_pos)
  constructor
  case scale_finite =>
    refine scale.isFinite_iff.mpr ?_
    rwa [abs_of_nonneg scale_nonneg]
  case scale_pos_iff => rw [hasValue_zero.lt_iff scale, positive_iff]
  case row_drawn =>
    intro row le
    obtain ⟨start, stop⟩ := edges row
    rw [start.lt_iff stop]
    exact start_lt_stop scale.kept (positive_iff.mpr (margin_lt_of_le counted le)) finite
      (some_beats row) nonneg le inside
  case row_lost =>
    intro row le
    obtain ⟨start, stop⟩ := edges row
    rw [start.lt_iff stop, not_lt]
    rcases scale_nonneg.eq_or_lt with rfl | positive
    · rw [mul_zero, mul_zero, nearest_zero, add_zero, nearest_zero]
    · exact (stop_eq_start scale.kept positive (some_beats row) le inside).le

/-- A layout remembers the geometry it was made from. -/
theorem geometry_of_layout {g : Geometry Float} (accepted : g.layout = .ok l) : l.geometry = g := by
  unfold Geometry.layout at accepted
  split at accepted
  · injection accepted with accepted
    rw [← accepted]
  · cases accepted

/-- Settings hold the lengths of rows in 32 bits. -/
theorem counted_of_drawn {s : Config.Store} (drawn : s.Drawn) : s.layout.Counted := by
  intro beats member
  unfold rowBeats at member
  rw [geometry_of_layout drawn] at member
  obtain ⟨held, -, rfl⟩ := List.mem_map.mp member
  exact held.toNat_lt

/-- Pixels per beat are finite, and positive as long as twice the margin is in
range. A row has an extent on the canvas if the margin is at most `2 ^ 51` times
its length, and none if it is `2 ^ 55` times its length or more. -/
theorem shown_by_margin (l : Layout Float) :
    (l.Counted → l.Shown) ∧ ∀ s : Config.Store, s.Reachable → s.layout = l → l.Shown := by
  refine ⟨fun counted => shown_of_counted counted, fun s reachable same => ?_⟩
  rw [← same]
  exact shown_of_counted (counted_of_drawn reachable.drawn)

/-- Two rows of two beats between margins of `10 ^ 15`. -/
def wideMargin : Layout Float :=
  ⟨⟨[2, 2], 1e15, 2000, 1000⟩, Option.isNone_iff_eq_none.mp (by decide +kernel)⟩

/-- A margin of many beats with which all is shown. -/
theorem shown_by_margin_wide :
    Scalar.zero < wideMargin.pixelsPerBeat
      ∧ ∀ row, (wideMargin.rowExtent row).1 < (wideMargin.rowExtent row).2 := by
  have counted : ∀ beats ∈ [2, 2], beats < 2 ^ 32 := by decide
  have shown := (shown_by_margin wideMargin).1 counted
  refine ⟨shown.scale_pos_iff.mpr (by decide +kernel), fun row => shown.row_drawn row ?_⟩
  have beats : wideMargin.rowBeats.getD (row % wideMargin.rows) 0 = 2 := by
    rcases Nat.mod_two_eq_zero_or_one row with even | odd
    · exact congrArg (wideMargin.rowBeats.getD · 0) even
    · exact congrArg (wideMargin.rowBeats.getD · 0) odd
  rw [beats]
  decide +kernel

/-- A margin that is out of range when it is doubled. -/
def doubledOut : Layout Float :=
  ⟨⟨[2, 2], 1e308, 2000, 1000⟩, Option.isNone_iff_eq_none.mp (by decide +kernel)⟩

/-- A margin next to which rows of two beats are rounded away. -/
def roundedAway : Layout Float :=
  ⟨⟨[2, 2], 1e17, 2000, 1000⟩, Option.isNone_iff_eq_none.mp (by decide +kernel)⟩

/-- Grids are accepted that leave no pixels for a beat, or none for a row. -/
theorem accepted_without_extent :
    ¬ Scalar.zero < doubledOut.pixelsPerBeat
      ∧ Scalar.zero < roundedAway.pixelsPerBeat
      ∧ ∀ row < 2, ¬ (doubledOut.rowExtent row).1 < (doubledOut.rowExtent row).2
        ∧ ¬ (roundedAway.rowExtent row).1 < (roundedAway.rowExtent row).2 := by
  decide +kernel

end Metrograph.Grid.Layout
