/-
The cells of the grid in the order of time.

A beat at home falls into one cell, the column of pixels and the row it is
drawn in. Columns begin anew with every row, so cells are ordered by their
rows first. Within one window this is the order of time (`cell_mono`): a
later beat is on no earlier row, since the rows lie end to end, and on the
same row it is drawn no further to the left.
-/
import Mathlib.Data.Prod.Lex
import Metrograph.Proofs.Grid.Window

namespace Metrograph.Grid.Layout

variable {l : Layout ℚ} {a b : ℚ} {k : ℤ}

/-- The row and the column of pixels that a beat falls into, rows first. -/
def cell (l : Layout ℚ) (beat : ℚ) : ℕ ×ₗ ℤ := toLex ((l.home beat).row, (l.home beat).column)

/-- Within the window number `k` a beat lies `k` windows after its place in the
first window. -/
theorem modWindow_of_window (low : k * l.window ≤ a) (high : a < (k + 1) * l.window) :
    l.modWindow a = a - k * l.window := by
  have turns : ⌊a / l.window⌋ = k :=
    Int.floor_eq_iff.mpr ⟨(le_div_iff₀ l.window_pos).mpr low, (div_lt_iff₀ l.window_pos).mpr high⟩
  unfold modWindow
  rw [turns]

theorem homeRow_mono (low : 0 ≤ a) (le : a ≤ b) (high : b < l.window) :
    l.homeRow a ≤ l.homeRow b := by
  obtain ⟨-, above, -⟩ := homeRow_spec low (le.trans_lt high)
  obtain ⟨-, -, below⟩ := homeRow_spec (low.trans le) high
  by_contra earlier
  have order : (l.beatsBefore (l.homeRow b + 1) : ℚ) ≤ l.beatsBefore (l.homeRow a) := by
    exact_mod_cast l.beatsBefore_mono (Nat.succ_le_of_lt (not_le.mp earlier))
  exact absurd (below.trans_le (order.trans above)) le.not_gt

/-- Within one window a later beat falls into no earlier cell. -/
theorem cell_mono (low : k * l.window ≤ a) (le : a ≤ b) (high : b < (k + 1) * l.window) :
    l.cell a ≤ l.cell b := by
  have placed_a := modWindow_of_window low (le.trans_lt high)
  have placed_b := modWindow_of_window (low.trans le) high
  have later : l.modWindow a ≤ l.modWindow b := by
    rw [placed_a, placed_b]
    exact sub_le_sub_right le _
  have rows := homeRow_mono (modWindow_nonneg a) later (modWindow_lt b)
  unfold cell
  rw [home_eq, home_eq, Prod.Lex.toLex_le_toLex]
  refine rows.lt_or_eq.imp_right fun (same : l.homeRow _ = l.homeRow _) => ⟨same, ?_⟩
  unfold Position.column
  rw [Exact.heldFloor_eq, Exact.heldFloor_eq]
  dsimp only
  rw [same]
  refine Int.floor_mono (mul_le_mul_of_nonneg_right ?_ l.pixelsPerBeat_pos.le)
  exact add_le_add_left (sub_le_sub_right later _) _

end Metrograph.Grid.Layout
