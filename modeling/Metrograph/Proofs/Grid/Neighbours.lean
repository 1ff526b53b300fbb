/-
Beats drawn on other rows than their own, read exactly.

# Rows without end

Counting rows goes on past the last one and before the first one: row `n`
is the row `n % rows` of the grid, `n / rows` windows later. Laid out like
this the rows begin one after another (`lineStart`), each as many beats
after the one before as that one is long, also where the grid wraps
(`lineStart_succ`). A beat keeps its place in the window whatever row it
is drawn on, so its position on the row `offset` rows below its own is
decided by the start of that row alone (`position_eq`).

# Why copies stay in the margins

The starts never decrease (`lineStart_mono`), and the own row of a beat
starts by the beat and ends after it. So every row further down starts
after the beat, which lies before the row's first beat there, and every
row further up ends by it.
-/
import Mathlib.Algebra.Order.SuccPred
import Metrograph.Proofs.Grid.Window

namespace Metrograph.Grid.Layout

variable {l : Layout ℚ} {beat : ℚ} {k : ℤ}

-- ======================================================= rows without end

/-- The row of the grid that row `n` of the rows without end is. -/
def lineRow (l : Layout ℚ) (n : ℤ) : ℕ := (n % (l.rows : ℤ)).toNat

/-- The beat at which row `n` of the rows without end starts. -/
def lineStart (l : Layout ℚ) (n : ℤ) : ℚ :=
  l.beatsBefore (l.lineRow n) + ((n / (l.rows : ℤ) : ℤ) : ℚ) * l.window

theorem rows_pos_int (l : Layout ℚ) : (0 : ℤ) < l.rows := by exact_mod_cast l.rows_pos

theorem lineRow_cast (l : Layout ℚ) (n : ℤ) : (l.lineRow n : ℤ) = n % (l.rows : ℤ) :=
  Int.toNat_of_nonneg (Int.emod_nonneg n l.rows_pos_int.ne')

/-- Every line of rows is a row of the grid. -/
theorem lineRow_lt (l : Layout ℚ) (n : ℤ) : l.lineRow n < l.rows := by
  have inside := Int.emod_lt_of_pos n l.rows_pos_int
  rw [← lineRow_cast] at inside
  exact_mod_cast inside

/-- The rows of the grid come first. -/
theorem lineRow_of_lt {r : ℕ} (inside : r < l.rows) : l.lineRow r = r := by
  unfold lineRow
  rw [Int.emod_eq_of_lt (Int.natCast_nonneg r) (by exact_mod_cast inside), Int.toNat_natCast]

theorem lineStart_of_lt {r : ℕ} (inside : r < l.rows) : l.lineStart r = l.beatsBefore r := by
  have turns : (r : ℤ) / (l.rows : ℤ) = 0 :=
    Int.ediv_eq_zero_of_lt (Int.natCast_nonneg r) (by exact_mod_cast inside)
  unfold lineStart
  rw [lineRow_of_lt inside, turns, Int.cast_zero, zero_mul, add_zero]

/-- Each row starts where the one before it ends, the top row of the next
window where the last row of a window ends. -/
theorem lineStart_succ (l : Layout ℚ) (n : ℤ) :
    l.lineStart (n + 1) = l.lineStart n + l.rowBeats.getD (l.lineRow n) 0 := by
  have grown := l.beatsBefore_succ (l.lineRow_lt n)
  have parts := Int.emod_add_mul_ediv n l.rows
  have place := l.lineRow_cast n
  have inside := l.lineRow_lt n
  rcases (Nat.succ_le_of_lt inside).eq_or_lt with last | more
  · -- the next row is the first one, a window later
    have next : n + 1 = l.rows * (n / l.rows + 1) := by
      have counted : ((l.lineRow n : ℤ) + 1) = l.rows := by exact_mod_cast last
      linear_combination (-1) * parts - place + counted
    have row : l.lineRow (n + 1) = 0 := by
      unfold lineRow
      rw [next, Int.mul_emod_right, Int.toNat_zero]
    have turns : (n + 1) / (l.rows : ℤ) = n / l.rows + 1 := by
      rw [next, Int.mul_ediv_cancel_left _ l.rows_pos_int.ne']
    have whole : (l.beatsBefore (l.lineRow n) : ℚ) + l.rowBeats.getD (l.lineRow n) 0
        = l.window := by
      rw [window_eq, ← last]
      exact_mod_cast grown.symm
    have first : l.beatsBefore 0 = 0 := rfl
    unfold lineStart
    rw [row, turns, first]
    push_cast
    linear_combination -whole
  · -- the next row is in the same window
    have next : n + 1 = ((l.lineRow n + 1 : ℕ) : ℤ) + l.rows * (n / l.rows) := by
      push_cast
      linear_combination (-1) * parts - place
    have rest : ((l.lineRow n + 1 : ℕ) : ℤ) % l.rows = (l.lineRow n + 1 : ℕ) :=
      Int.emod_eq_of_lt (Int.natCast_nonneg _) (by exact_mod_cast more)
    have row : l.lineRow (n + 1) = l.lineRow n + 1 := by
      unfold lineRow
      rw [next, Int.add_mul_emod_self_left, rest, Int.toNat_natCast]
      rfl
    have turns : (n + 1) / (l.rows : ℤ) = n / l.rows := by
      rw [next, Int.add_mul_ediv_left _ _ l.rows_pos_int.ne',
        Int.ediv_eq_zero_of_lt (Int.natCast_nonneg _) (by exact_mod_cast more), zero_add]
    unfold lineStart
    rw [row, turns, grown]
    push_cast
    ring

/-- Later lines of rows begin later. -/
theorem lineStart_mono (l : Layout ℚ) {m n : ℤ} (order : m ≤ n) :
    l.lineStart m ≤ l.lineStart n := by
  refine monotone_int_of_le_succ (fun n => ?_) order
  have beats : (0 : ℚ) ≤ l.rowBeats.getD (l.lineRow n) 0 := by
    exact_mod_cast Nat.zero_le _
  rw [lineStart_succ]
  exact le_add_of_nonneg_right beats

-- ============================================================== positions

/-- The row on which a beat is drawn at home. -/
theorem home_row (beat : ℚ) : (l.home beat).row = l.homeRow (l.modWindow beat) := by
  rw [home_eq]

/-- A beat lies between the start of its own row and that of the next. -/
theorem lineStart_home (l : Layout ℚ) (beat : ℚ) :
    (l.home beat).row < l.rows
      ∧ l.lineStart (l.home beat).row = l.rowStart (l.home beat).row
      ∧ l.lineStart (l.home beat).row ≤ l.modWindow beat
      ∧ l.modWindow beat < l.lineStart ((l.home beat).row + 1) := by
  obtain ⟨inside, above, below⟩ :=
    homeRow_spec (modWindow_nonneg beat) (modWindow_lt (l := l) beat)
  rw [home_row, lineStart_succ, lineStart_of_lt inside, lineRow_of_lt inside,
    rowStart_eq l inside]
  refine ⟨inside, rfl, above, ?_⟩
  rw [l.beatsBefore_succ inside] at below
  exact_mod_cast below

/-- On the row `k` rows below its own a beat is drawn as far from the start of
that row as it is in time, after the margin. -/
theorem position_eq (l : Layout ℚ) (beat : ℚ) (k : ℤ) :
    l.position beat k
      = ⟨(l.modWindow beat - l.lineStart ((l.home beat).row + k) + l.margin) * l.pixelsPerBeat,
        l.lineRow ((l.home beat).row + k)⟩ := by
  have starts := rowStart_eq l (l.lineRow_lt ((l.home beat).row + k))
  unfold lineStart
  rw [← starts, home_row]
  unfold position
  rw [beatInWindow_eq]
  rfl

/-- A row so many lines further on. -/
theorem position_row (l : Layout ℚ) (beat : ℚ) (k : ℤ) :
    (l.position beat k).row = l.lineRow ((l.home beat).row + k) := by
  rw [position_eq]

/-- The column keeps the distance from the beginning of the line. -/
theorem position_x (l : Layout ℚ) (beat : ℚ) (k : ℤ) :
    (l.position beat k).x = (l.modWindow beat - l.lineStart ((l.home beat).row + k) + l.margin)
      * l.pixelsPerBeat := by
  rw [position_eq]

/-- One row further down a beat is drawn by the beats of the row left further
to the left. -/
theorem position_succ_x (l : Layout ℚ) (beat : ℚ) (k : ℤ) :
    (l.position beat (k + 1)).x
      = (l.position beat k).x
        - l.rowBeats.getD (l.position beat k).row 0 * l.pixelsPerBeat := by
  rw [position_x, position_x, position_row, ← add_assoc, lineStart_succ]
  ring

/-- On a row further down a beat is drawn before the row's own beats. -/
theorem position_lt_extent (below : 0 < k) :
    (l.position beat k).x < (l.rowExtent (l.position beat k).row).1 := by
  obtain ⟨-, -, -, ends⟩ := l.lineStart_home beat
  have order : l.lineStart ((l.home beat).row + 1) ≤ l.lineStart ((l.home beat).row + k) :=
    l.lineStart_mono (by omega)
  rw [position_x, position_row, rowExtent_eq l (l.lineRow_lt _)]
  exact mul_lt_mul_of_pos_right (by linarith) l.pixelsPerBeat_pos

/-- On a row further up a beat is drawn after the row's own beats. -/
theorem extent_le_position (above : k < 0) :
    (l.rowExtent (l.position beat k).row).2 ≤ (l.position beat k).x := by
  obtain ⟨-, -, starts, -⟩ := l.lineStart_home beat
  have order : l.lineStart ((l.home beat).row + k + 1) ≤ l.lineStart (l.home beat).row :=
    l.lineStart_mono (by omega)
  rw [lineStart_succ] at order
  rw [position_x, position_row, rowExtent_eq l (l.lineRow_lt _), ← add_mul]
  exact mul_le_mul_of_nonneg_right (by linarith) l.pixelsPerBeat_pos.le

/-- The copy on the row below is on the canvas exactly for the last beats of a
row, as many as the margin has. -/
theorem copy_below_iff (l : Layout ℚ) (beat : ℚ) :
    0 ≤ (l.position beat 1).x
      ↔ l.rowStart (l.home beat).row + l.rowBeats.getD (l.home beat).row 0 - l.modWindow beat
        ≤ l.margin := by
  obtain ⟨inside, starts, -, -⟩ := l.lineStart_home beat
  rw [position_x, mul_nonneg_iff_of_pos_right l.pixelsPerBeat_pos, lineStart_succ, starts,
    lineRow_of_lt inside]
  constructor <;> intro <;> linarith

/-- The copy on the row above is within the margin after the row exactly for
the first beats of a row, as many as the margin has. -/
theorem copy_above_iff (l : Layout ℚ) (beat : ℚ) :
    (l.position beat (-1)).x
        < (l.rowExtent (l.position beat (-1)).row).2 + l.margin * l.pixelsPerBeat
      ↔ l.modWindow beat - l.rowStart (l.home beat).row < l.margin := by
  obtain ⟨-, starts, -, -⟩ := l.lineStart_home beat
  have step := l.lineStart_succ ((l.home beat).row + -1)
  rw [neg_add_cancel_right, starts] at step
  rw [position_x, position_row, rowExtent_eq l (l.lineRow_lt _), ← add_mul, ← add_mul,
    mul_lt_mul_iff_left₀ l.pixelsPerBeat_pos]
  constructor <;> intro <;> linarith

/-- On the row some rows away from its own a beat keeps its place in time: each
row further down moves it left by the beats of the row left, around the grid
as well. So below it lies before the row's own beats and above it after
them, and the two copies next to its own row are in the margins exactly for
beats that are within the margin of an end of their row. -/
theorem position_keeps_time (l : Layout ℚ) (beat : ℚ) :
    (∀ k : ℤ,
      ((l.position beat k).row : ℤ) = ((l.home beat).row + k) % (l.rows : ℤ)
      ∧ (l.position beat (k + 1)).x
        = (l.position beat k).x
          - l.rowBeats.getD (l.position beat k).row 0 * l.pixelsPerBeat
      ∧ (0 < k → (l.position beat k).x < (l.rowExtent (l.position beat k).row).1)
      ∧ (k < 0 → (l.rowExtent (l.position beat k).row).2 ≤ (l.position beat k).x))
    ∧ (0 ≤ (l.position beat 1).x
      ↔ l.rowStart (l.home beat).row + l.rowBeats.getD (l.home beat).row 0 - l.modWindow beat
        ≤ l.margin)
    ∧ ((l.position beat (-1)).x
        < (l.rowExtent (l.position beat (-1)).row).2 + l.margin * l.pixelsPerBeat
      ↔ l.modWindow beat - l.rowStart (l.home beat).row < l.margin) := by
  refine ⟨fun k => ⟨?_, l.position_succ_x beat k, position_lt_extent, extent_le_position⟩,
    l.copy_below_iff beat, l.copy_above_iff beat⟩
  rw [position_row, lineRow_cast]

end Metrograph.Grid.Layout
