/-
Where the beats of a window lie on the grid, read exactly.

# Rows laid end to end

The rows of a layout cut the window `[0, window)` into half-open pieces,
one for each row, that begin where the rows before them end
(`beatsBefore`). A beat is taken modulo the window (`modWindow`), falls
into exactly one piece (`homeRow_spec`, `row_unique`), and is drawn at its
distance from the beginning of the piece, after the margin.

# The bijection

Along a row distance and pixels determine each other, since a beat has a
positive number of pixels. So position and beat within the window
determine each other (`beatAt_home`, `home_beatAt`), and every position in
the extent of a row is taken: home maps the window one to one onto the
extents of the rows (`home_bijOn`), and beats share a position exactly if
whole windows lie between them (`home_eq_home_iff`).
-/
import Mathlib.Algebra.Order.Floor.Ring
import Mathlib.Algebra.Order.BigOperators.Group.List
import Mathlib.Data.List.GetD
import Mathlib.Data.Set.Function
import Mathlib.Tactic.Linarith
import Mathlib.Tactic.LinearCombination
import Mathlib.Tactic.Ring
import Metrograph.Proofs.Grid.Geometry
import Metrograph.Proofs.Scalar.Exact

namespace Metrograph.Grid

-- ============================================================ the rows

theorem startsFrom_cons (start : ℚ) (beats : ℕ) (rest : List ℕ) :
    startsFrom start (beats :: rest) = start :: startsFrom (start + beats) rest := rfl

theorem length_startsFrom (start : ℚ) (rows : List ℕ) :
    (startsFrom start rows).length = rows.length + 1 := by
  induction rows generalizing start with
  | nil => rfl
  | cons beats rest ih => exact congrArg (· + 1) (ih (start + beats))

/-- The rows start where the rows before them end. -/
theorem getD_startsFrom (start : ℚ) (rows : List ℕ) {r : ℕ} (inside : r ≤ rows.length) :
    (startsFrom start rows).getD r 0 = start + ((rows.take r).sum : ℕ) := by
  induction rows generalizing start r with
  | nil =>
      obtain rfl : r = 0 := by simpa using inside
      simp [startsFrom]
  | cons beats rest ih =>
      cases r with
      | zero => simp [startsFrom]
      | succ r =>
          rw [startsFrom_cons, List.getD_cons_succ, ih _ (Nat.le_of_succ_le_succ inside),
            List.take_succ_cons, List.sum_cons]
          push_cast
          ring

/-- The last row that starts by a beat among the rows is the one in which the
beat falls. -/
theorem takeWhile_startsFrom {start b : ℚ} {rows : List ℕ} (low : start ≤ b)
    (high : b < start + (rows.sum : ℕ)) :
    ∃ r < rows.length,
      (((startsFrom start rows).take rows.length).takeWhile fun s => decide (s ≤ b)).length = r + 1
        ∧ start + ((rows.take r).sum : ℕ) ≤ b ∧ b < start + ((rows.take (r + 1)).sum : ℕ) := by
  induction rows generalizing start with
  | nil =>
      rw [List.sum_nil, Nat.cast_zero, add_zero] at high
      exact absurd low high.not_ge
  | cons beats rest ih =>
      rw [startsFrom_cons, List.length_cons, List.take_succ_cons,
        List.takeWhile_cons_of_pos (by simpa using low)]
      by_cases early : b < start + beats
      · -- the next row, if there is one, starts later
        refine ⟨0, Nat.succ_pos _, congrArg (· + 1) (List.length_eq_zero_iff.mpr ?_), ?_, ?_⟩
        · cases rest with
          | nil => rfl
          | cons next rest => exact List.takeWhile_cons_of_neg (by simpa using early)
        · simpa using low
        · simpa using early
      · rw [List.sum_cons, Nat.cast_add, ← add_assoc] at high
        obtain ⟨r, inside, counted, above, below⟩ := ih (not_lt.mp early) high
        refine ⟨r + 1, Nat.succ_lt_succ inside, ?_, ?_, ?_⟩
        · rw [List.length_cons, counted]
        · rw [List.take_succ_cons, List.sum_cons, Nat.cast_add, ← add_assoc]
          exact above
        · rw [List.take_succ_cons, List.sum_cons, Nat.cast_add, ← add_assoc]
          exact below

namespace Layout

section Rows

variable {α : Type} [Scalar α] (l : Layout α) {r s : ℕ}

/-- The beats of all rows above one. -/
def beatsBefore (r : ℕ) : ℕ := (l.rowBeats.take r).sum

theorem rows_pos : 0 < l.rows := List.length_pos_iff.mpr l.isDrawable.rows_ne_nil

theorem rowBeats_pos (inside : r < l.rows) : 0 < l.rowBeats.getD r 0 := by
  rw [List.getD_eq_getElem _ _ inside]
  exact Nat.pos_of_ne_zero (l.isDrawable.beats_ne_zero _ (List.getElem_mem inside))

/-- A row's beats come before the next row. -/
theorem beatsBefore_succ (inside : r < l.rows) :
    l.beatsBefore (r + 1) = l.beatsBefore r + l.rowBeats.getD r 0 := by
  unfold beatsBefore
  rw [List.getD_eq_getElem _ _ inside, List.sum_take_succ _ _ inside]

/-- Later rows begin later. -/
theorem beatsBefore_mono (le : r ≤ s) : l.beatsBefore r ≤ l.beatsBefore s :=
  List.monotone_sum_take l.rowBeats le

/-- The longest row has at least one beat, and no row has more. -/
theorem le_foldl_max (m : ℕ) (rows : List ℕ) :
    m ≤ rows.foldl max m ∧ ∀ beats ∈ rows, beats ≤ rows.foldl max m := by
  induction rows generalizing m with
  | nil => exact ⟨le_rfl, nofun⟩
  | cons beats rest ih =>
      obtain ⟨first, others⟩ := ih (max m beats)
      refine ⟨(le_max_left m beats).trans first, fun n member => ?_⟩
      rcases List.mem_cons.mp member with rfl | member
      · exact (le_max_right m n).trans first
      · exact others n member

/-- There is a beat in some row. -/
theorem longestRow_pos : 0 < l.longestRow := (le_foldl_max 1 l.rowBeats).1

theorem rowBeats_le_longestRow (inside : r < l.rows) : l.rowBeats.getD r 0 ≤ l.longestRow := by
  rw [List.getD_eq_getElem _ _ inside]
  exact (le_foldl_max 1 l.rowBeats).2 _ (List.getElem_mem inside)

end Rows

variable (l : Layout ℚ) {r s : ℕ}

/-- The starts of the rows are the beats before them. -/
theorem starts_getD (inside : r ≤ l.rows) : l.starts.getD r 0 = l.beatsBefore r := by
  unfold starts beatsBefore
  rw [show (Scalar.zero : ℚ) = 0 from rfl, getD_startsFrom 0 l.rowBeats inside, zero_add]

/-- The window is as long as all rows together. -/
theorem window_eq : l.window = l.beatsBefore l.rows := by
  rw [← starts_getD l le_rfl]
  unfold window
  rw [List.getLastD_eq_getLast?, List.getLast?_eq_getElem?, List.getD_eq_getElem?_getD]
  unfold starts
  rw [length_startsFrom]
  rfl

/-- The window is never empty. -/
theorem window_pos : 0 < l.window := by
  have first : l.beatsBefore 1 = _ := l.beatsBefore_succ l.rows_pos
  have positive := l.rowBeats_pos l.rows_pos
  have grown : l.beatsBefore 1 ≤ l.beatsBefore l.rows := l.beatsBefore_mono l.rows_pos
  rw [window_eq, Nat.cast_pos]
  omega

/-- A row starts where those before it stop. -/
theorem rowStart_eq (inside : r < l.rows) : l.rowStart r = l.beatsBefore r := by
  unfold rowStart
  rw [Nat.mod_eq_of_lt inside]
  exact l.starts_getD inside.le

/-- A row begins behind the margin and is as wide as its beats. -/
theorem rowExtent_eq (inside : r < l.rows) :
    l.rowExtent r = (l.margin * l.pixelsPerBeat,
      l.margin * l.pixelsPerBeat + l.rowBeats.getD r 0 * l.pixelsPerBeat) := by
  unfold rowExtent
  rw [Nat.mod_eq_of_lt inside]
  rfl

-- ========================================================== the scale

/-- No margin reaches into the rows. -/
theorem margin_nonneg : 0 ≤ l.margin := not_lt.mp l.isDrawable.margin_nonneg

/-- The longest row and the margins on both of its sides fill the width. -/
theorem width_eq : (l.longestRow + 2 * l.margin) * l.pixelsPerBeat = l.width := by
  have longest : (0 : ℚ) < l.longestRow := by exact_mod_cast l.longestRow_pos
  have beats : 0 < l.longestRow + 2 * l.margin := by
    linarith [l.margin_nonneg]
  exact mul_div_cancel₀ _ beats.ne'

/-- Without rounding every beat has some width. -/
theorem pixelsPerBeat_pos : 0 < l.pixelsPerBeat := by
  have longest : (0 : ℚ) < l.longestRow := by exact_mod_cast l.longestRow_pos
  have wide : (0 : ℚ) < l.width := by exact_mod_cast Nat.pos_of_ne_zero l.isDrawable.width_ne_zero
  have beats : 0 < l.longestRow + 2 * l.margin := by
    linarith [l.margin_nonneg]
  exact div_pos wide beats

-- ======================================================== the window

/-- A beat modulo the window. -/
def modWindow (beat : ℚ) : ℚ := beat - ⌊beat / l.window⌋ * l.window

variable {l} {a b beat : ℚ}

/-- A beat is brought into the window from both sides. -/
theorem modWindow_nonneg (beat : ℚ) : 0 ≤ l.modWindow beat :=
  Int.sub_floor_div_mul_nonneg beat l.window_pos

theorem modWindow_lt (beat : ℚ) : l.modWindow beat < l.window :=
  Int.sub_floor_div_mul_lt beat l.window_pos

/-- A beat in the window stays. -/
theorem modWindow_of_mem (low : 0 ≤ b) (high : b < l.window) : l.modWindow b = b := by
  have first : ⌊b / l.window⌋ = 0 :=
    Int.floor_eq_zero_iff.mpr ⟨div_nonneg low l.window_pos.le, (div_lt_one l.window_pos).mpr high⟩
  unfold modWindow
  rw [first, Int.cast_zero, zero_mul, sub_zero]

/-- Beats have the same place in the window exactly if whole windows lie
between them. -/
theorem modWindow_eq_modWindow_iff :
    l.modWindow a = l.modWindow b ↔ ∃ turns : ℤ, b - a = turns * l.window := by
  unfold modWindow
  constructor
  · intro same
    refine ⟨⌊b / l.window⌋ - ⌊a / l.window⌋, ?_⟩
    push_cast
    linarith
  · rintro ⟨turns, apart⟩
    have later : b = a + turns * l.window := by linarith
    have turned : b / l.window = a / l.window + turns := by
      rw [later, add_div, mul_div_cancel_right₀ _ l.window_pos.ne']
    rw [turned, Int.floor_add_intCast, later]
    push_cast
    ring

/-- Without rounding a remainder never comes to the whole window. -/
theorem beatInWindow_eq (beat : ℚ) : l.beatInWindow beat = l.modWindow beat := by
  unfold beatInWindow
  rw [if_pos (Exact.isFinite_eq beat), Exact.wrap_eq beat l.window_pos]
  exact if_neg (modWindow_lt beat).not_ge

/-- The row of a place in the window is one that has the place between its
start and its end. -/
theorem homeRow_spec (low : 0 ≤ b) (high : b < l.window) :
    l.homeRow b < l.rows ∧ l.beatsBefore (l.homeRow b) ≤ b
      ∧ b < l.beatsBefore (l.homeRow b + 1) := by
  have total : b < (0 : ℚ) + (l.rowBeats.sum : ℕ) := by
    rw [window_eq] at high
    unfold beatsBefore rows at high
    rw [List.take_length] at high
    rwa [zero_add]
  obtain ⟨r, inside, counted, above, below⟩ := takeWhile_startsFrom low total
  have home : l.homeRow b = r := by
    show (((startsFrom (0 : ℚ) l.rowBeats).take l.rowBeats.length).takeWhile _).length - 1 = r
    rw [counted, Nat.add_sub_cancel]
  rw [zero_add] at above below
  rw [home]
  exact ⟨inside, above, below⟩

/-- No place lies in two rows. -/
theorem row_unique (from_r : l.beatsBefore r ≤ b) (to_r : b < l.beatsBefore (r + 1))
    (from_s : l.beatsBefore s ≤ b) (to_s : b < l.beatsBefore (s + 1)) : r = s := by
  have apart : ∀ {i j : ℕ}, b < l.beatsBefore (i + 1) → l.beatsBefore j ≤ b → ¬ i < j := by
    intro i j ends starts before
    have order : (l.beatsBefore (i + 1) : ℚ) ≤ l.beatsBefore j := by
      exact_mod_cast l.beatsBefore_mono (Nat.succ_le_of_lt before)
    exact absurd (ends.trans_le order) starts.not_gt
  exact le_antisymm (not_lt.mp (apart to_s from_r)) (not_lt.mp (apart to_r from_s))

-- ======================================================== positions

/-- A beat is drawn on the row of its place in the window, as far from the
beginning of the row as it is in time, after the margin. -/
theorem home_eq (beat : ℚ) :
    l.home beat
      = ⟨(l.modWindow beat - l.beatsBefore (l.homeRow (l.modWindow beat)) + l.margin)
          * l.pixelsPerBeat, l.homeRow (l.modWindow beat)⟩ := by
  obtain ⟨inside, -, -⟩ := homeRow_spec (modWindow_nonneg beat) (modWindow_lt (l := l) beat)
  unfold home position
  rw [beatInWindow_eq]
  dsimp only
  generalize l.homeRow (l.modWindow beat) = r at inside ⊢
  have bound : ((r : ℤ) + 0) < l.rows := by omega
  have nonneg : (0 : ℤ) ≤ (r : ℤ) + 0 := by omega
  have row : (((r : ℤ) + 0) % (l.rows : ℤ)).toNat = r := by
    rw [Int.emod_eq_of_lt nonneg bound]
    omega
  have turns : ((r : ℤ) + 0) / (l.rows : ℤ) = 0 := Int.ediv_eq_zero_of_lt nonneg bound
  have still : Scalar.ofInt (0 : ℤ) * l.window = 0 := zero_mul _
  rw [row, turns, rowStart_eq l inside, still, add_zero]

/-- The beat of the window that is drawn at a position. -/
def beatAt (l : Layout ℚ) (p : Position ℚ) : ℚ :=
  l.rowStart p.row + p.x / l.pixelsPerBeat - l.margin

/-- The positions in the rows' own extents. -/
def extents (l : Layout ℚ) : Set (Position ℚ) :=
  { p | p.row < l.rows ∧ (l.rowExtent p.row).1 ≤ p.x ∧ p.x < (l.rowExtent p.row).2 }

/-- The beat at the home of a beat is the beat, brought into the window. -/
theorem beatAt_home (beat : ℚ) : l.beatAt (l.home beat) = l.modWindow beat := by
  obtain ⟨inside, -, -⟩ := homeRow_spec (modWindow_nonneg beat) (modWindow_lt (l := l) beat)
  unfold beatAt
  rw [home_eq]
  dsimp only
  rw [rowStart_eq l inside, mul_div_cancel_right₀ _ l.pixelsPerBeat_pos.ne']
  ring

/-- Beats have the same position exactly if whole windows lie between them. -/
theorem home_eq_home_iff : l.home a = l.home b ↔ ∃ turns : ℤ, b - a = turns * l.window := by
  rw [← modWindow_eq_modWindow_iff]
  constructor
  · intro same
    rw [← beatAt_home, ← beatAt_home, same]
  · intro same
    rw [home_eq, home_eq, same]

/-- The home of a beat lies on its row. -/
theorem home_mem_extents (beat : ℚ) : l.home beat ∈ l.extents := by
  obtain ⟨inside, above, below⟩ :=
    homeRow_spec (modWindow_nonneg beat) (modWindow_lt (l := l) beat)
  rw [home_eq]
  generalize l.homeRow (l.modWindow beat) = r at inside above below
  have positive := l.pixelsPerBeat_pos
  rw [l.beatsBefore_succ inside, Nat.cast_add] at below
  refine ⟨inside, ?_, ?_⟩
  · rw [rowExtent_eq l inside]
    exact mul_le_mul_of_nonneg_right (by linarith) positive.le
  · rw [rowExtent_eq l inside]
    dsimp only
    rw [← add_mul]
    exact mul_lt_mul_of_pos_right (by linarith) positive

/-- A position in the extent of a row belongs to a place in the row. -/
theorem beatAt_spec {p : Position ℚ} (drawn : p ∈ l.extents) :
    l.beatsBefore p.row ≤ l.beatAt p ∧ l.beatAt p < l.beatsBefore (p.row + 1) := by
  obtain ⟨inside, from_x, to_x⟩ := drawn
  have positive := l.pixelsPerBeat_pos
  rw [rowExtent_eq l inside] at from_x to_x
  dsimp only at from_x to_x
  rw [← add_mul] at to_x
  have from_beat := (le_div_iff₀ positive).mpr from_x
  have to_beat := (div_lt_iff₀ positive).mpr to_x
  unfold beatAt
  rw [rowStart_eq l inside, l.beatsBefore_succ inside, Nat.cast_add]
  constructor <;> linarith

/-- Every place on a row is that of a beat in the window. -/
theorem beatAt_mem {p : Position ℚ} (drawn : p ∈ l.extents) : l.beatAt p ∈ Set.Ico 0 l.window := by
  obtain ⟨above, below⟩ := beatAt_spec drawn
  have low : (0 : ℚ) ≤ l.beatsBefore p.row := Nat.cast_nonneg _
  have high : (l.beatsBefore (p.row + 1) : ℚ) ≤ l.beatsBefore l.rows := by
    exact_mod_cast l.beatsBefore_mono (Nat.succ_le_of_lt drawn.1)
  rw [window_eq]
  exact ⟨low.trans above, below.trans_le high⟩

/-- Every place on a row is the home of its beat. -/
theorem home_beatAt {p : Position ℚ} (drawn : p ∈ l.extents) : l.home (l.beatAt p) = p := by
  obtain ⟨above, below⟩ := beatAt_spec drawn
  obtain ⟨low, high⟩ := beatAt_mem drawn
  obtain ⟨-, above', below'⟩ := homeRow_spec low high
  have row : l.homeRow (l.beatAt p) = p.row := row_unique above' below' above below
  rw [home_eq, modWindow_of_mem low high, row]
  have x : (l.beatAt p - l.beatsBefore p.row + l.margin) * l.pixelsPerBeat = p.x := by
    unfold beatAt
    rw [rowStart_eq l drawn.1]
    have scale : p.x / l.pixelsPerBeat * l.pixelsPerBeat = p.x :=
      div_mul_cancel₀ _ l.pixelsPerBeat_pos.ne'
    linear_combination scale
  rw [x]

/-- The window is drawn on the extents of the rows, every beat at a place of
its own. -/
theorem home_bijOn (l : Layout ℚ) : Set.BijOn l.home (Set.Ico 0 l.window) l.extents := by
  have inverse : Set.InvOn l.beatAt l.home (Set.Ico 0 l.window) l.extents :=
    ⟨fun b ⟨low, high⟩ => (beatAt_home b).trans (modWindow_of_mem low high),
      fun _ drawn => home_beatAt drawn⟩
  exact inverse.bijOn (fun b _ => home_mem_extents b) fun _ drawn => beatAt_mem drawn

/-- A position in the extent of a row is on the canvas. -/
theorem column_mem {p : Position ℚ} (drawn : p ∈ l.extents) :
    0 ≤ p.column ∧ p.column < l.width := by
  obtain ⟨inside, from_x, to_x⟩ := drawn
  have positive := l.pixelsPerBeat_pos
  have shifted := mul_nonneg l.margin_nonneg positive.le
  have longest : (l.rowBeats.getD p.row 0 : ℚ) ≤ l.longestRow := by
    exact_mod_cast l.rowBeats_le_longestRow inside
  have filled := l.width_eq
  rw [rowExtent_eq l inside] at from_x to_x
  dsimp only at from_x to_x
  unfold Position.column
  rw [Exact.heldFloor_eq]
  refine ⟨Int.floor_nonneg.mpr (shifted.trans from_x), Int.floor_lt.mpr ?_⟩
  have wide := mul_le_mul_of_nonneg_right longest positive.le
  rw [Int.cast_natCast]
  linarith

/-- Every beat is drawn on the one row in which its place in the window falls,
within the row's extent and on the canvas, at its distance from the start of
the row. This maps the window one to one onto the extents, and beats share a
position exactly if whole windows lie between them. -/
theorem home_bijective (l : Layout ℚ) :
    (∀ beat, (l.home beat).row < l.rows
      ∧ l.starts.getD (l.home beat).row 0 ≤ l.modWindow beat
      ∧ l.modWindow beat < l.starts.getD ((l.home beat).row + 1) 0
      ∧ (∀ r < l.rows, l.starts.getD r 0 ≤ l.modWindow beat →
        l.modWindow beat < l.starts.getD (r + 1) 0 → r = (l.home beat).row)
      ∧ (l.rowExtent (l.home beat).row).1 ≤ (l.home beat).x
      ∧ (l.home beat).x < (l.rowExtent (l.home beat).row).2
      ∧ 0 ≤ (l.home beat).column ∧ (l.home beat).column < l.width
      ∧ l.rowStart (l.home beat).row + (l.home beat).x / l.pixelsPerBeat - l.margin
        = l.modWindow beat)
    ∧ Set.BijOn l.home (Set.Ico 0 l.window) l.extents
    ∧ ∀ a b, l.home a = l.home b ↔ ∃ turns : ℤ, b - a = turns * l.window := by
  refine ⟨fun beat => ?_, l.home_bijOn, fun a b => home_eq_home_iff⟩
  have drawn := home_mem_extents (l := l) beat
  obtain ⟨above, below⟩ := beatAt_spec drawn
  obtain ⟨inside, from_x, to_x⟩ := drawn
  obtain ⟨first, last⟩ := column_mem (home_mem_extents (l := l) beat)
  rw [beatAt_home] at above below
  refine ⟨inside, ?_, ?_, ?_, from_x, to_x, first, last, beatAt_home beat⟩
  · rw [starts_getD l inside.le]
    exact above
  · rw [starts_getD l (Nat.succ_le_of_lt inside)]
    exact below
  · intro r row starts ends
    rw [starts_getD l row.le] at starts
    rw [starts_getD l (Nat.succ_le_of_lt row)] at ends
    exact row_unique starts ends above below

end Layout

end Metrograph.Grid
