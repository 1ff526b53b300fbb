/-
The overlay of a loop repeats with the loop.

# Moving by whole loops

An instance of a note has the same place in every repetition, so moving a
range of beats by whole loops moves the instances in it along, one by one
and in their order (`drawn_add`, `occurrences_add`).

# Painting

The offset of an overlay is taken from the ends of the window, and given
back to every beat that is found in between. Moving it by whole loops
takes other instances, but paints the same lines in the same order, also
where one line covers another (`paintOverlay_add`). And since a painting
never looks at the canvas, painting it again changes nothing.
-/
import Metrograph.Proofs.Grid.Window
import Metrograph.Proofs.Rhythm.Occurrences

namespace Metrograph

namespace Rhythm.Loop

variable {loop : Loop ℚ} {start stop : ℚ}

-- ============================================================== instances

namespace Instance

/-- The instance of the same note some repetitions later. -/
def later (turns : ℤ) (i : loop.Instance) : loop.Instance := ⟨i.repetition + turns, i.place⟩

/-- Whole repetitions later means as many lengths later. -/
theorem beat_later (turns : ℤ) (i : loop.Instance) :
    (i.later turns).beat = i.beat + turns * loop.length := by
  unfold beat later note
  push_cast
  ring

end Instance

/-- A later repetition has the same instances, later. -/
theorem instancesOf_add (repetition turns : ℤ) :
    loop.instancesOf (repetition + turns)
      = (loop.instancesOf repetition).map (Instance.later turns) := by
  unfold instancesOf
  rw [List.map_map]
  rfl

theorem instancesOver_add (count : ℕ) (repetition turns : ℤ) :
    loop.instancesOver count (repetition + turns)
      = (loop.instancesOver count repetition).map (Instance.later turns) := by
  induction count generalizing repetition with
  | zero => rfl
  | succ count ih =>
      unfold instancesOver
      rw [List.map_append, ← ih, instancesOf_add, add_right_comm]

namespace WellFormed

/-- Ends moved by whole loops are in repetitions so many later. -/
theorem add_div_length (h : loop.WellFormed) (beat : ℚ) (turns : ℤ) :
    (beat + turns * loop.length) / loop.length = beat / loop.length + turns := by
  rw [add_div, mul_div_cancel_right₀ _ h.length_pos.ne']

/-- Moving a range by whole loops moves what is in it along. -/
theorem drawn_add (h : loop.WellFormed) (start stop : ℚ) (turns : ℤ) :
    loop.drawn (start + turns * loop.length) (stop + turns * loop.length)
      = (loop.drawn start stop).map (Instance.later turns) := by
  have count : loop.repetitionsUntil (start + turns * loop.length) (stop + turns * loop.length)
      = loop.repetitionsUntil start stop := by
    unfold repetitionsUntil
    rw [h.add_div_length, h.add_div_length, Int.ceil_add_intCast, Int.floor_add_intCast,
      add_sub_add_right_eq_sub]
  unfold drawn instancesWithin
  rw [count, h.add_div_length, Int.floor_add_intCast, instancesOver_add, List.filter_map]
  refine congrArg (List.map _) (List.filter_congr fun i _ => decide_eq_decide.mpr ?_)
  rw [Instance.beat_later, add_le_add_iff_right, add_lt_add_iff_right]

/-- Over a window that is whole repetitions later the same notes are listed, later. -/
theorem occurrences_add (h : loop.WellFormed) (lt : start < stop) (turns : ℤ) :
    loop.occurrences (start + turns * loop.length) (stop + turns * loop.length)
      = (loop.occurrences start stop).map fun (beat, note) => (beat + turns * loop.length, note) := by
  rw [h.occurrences_eq lt, h.occurrences_eq (add_lt_add_left lt _), h.drawn_add, List.map_map,
    List.map_map]
  refine List.map_congr_left fun i _ => ?_
  exact Prod.ext (Instance.beat_later turns i) rfl

end WellFormed

end Rhythm.Loop

namespace Painter

open Grid (Layout)
open Rhythm (Loop Exactly)

variable {loop : Loop ℚ}

-- =============================================================== painting

theorem window_shifted_proper (l : Layout ℚ) (offset : ℚ) : -offset < l.window - offset := by
  linarith [l.window_pos]

/-- The same lines are painted in the same order. -/
theorem paintOverlay_add (h : loop.WellFormed) (c : Canvas) (l : Layout ℚ) (offset : ℚ)
    (turns : ℤ) :
    paintOverlay c l loop (offset + turns * loop.length) = paintOverlay c l loop offset := by
  have first : -(offset + turns * loop.length) = -offset + (-turns : ℤ) * loop.length := by
    push_cast
    ring
  have last : l.window - (offset + turns * loop.length)
      = l.window - offset + (-turns : ℤ) * loop.length := by
    push_cast
    ring
  have back (beat : ℚ) :
      beat + (-turns : ℤ) * loop.length + (offset + turns * loop.length) = beat + offset := by
    push_cast
    ring
  unfold paintOverlay
  dsimp only
  rw [first, last, h.occurrences_add (window_shifted_proper l offset), List.foldl_map]
  simp only [back]

/-- The overlay depends on its offset only up to whole loops: it is the same
painting, whatever is on the canvas, and painting it again changes nothing. The
notes in the window are listed to an end for every offset. -/
theorem overlay_repeats {text : String} (exact : Exactly text loop) (c : Canvas) (l : Layout ℚ)
    (offset : ℚ) (turns : ℤ) :
    (loop.occurrences? (-offset) (l.window - offset)).isSome
      ∧ paintOverlay c l loop (offset + turns * loop.length) = paintOverlay c l loop offset
      ∧ paintOverlay (paintOverlay c l loop offset) l loop offset
        = paintOverlay c l loop offset := by
  have formed := exact.wellFormed
  refine ⟨?_, paintOverlay_add formed c l offset turns, ?_⟩
  · rw [formed.occurrences?_eq (window_shifted_proper l offset)]
    rfl
  · exact (paints_paintOverlay l loop offset).absorb Canvas.paints_id c

open Rhythm (shuffle) in
open Rhythm.Loop (twoBars) in
/-- In two bars half a beat late, or half a beat late five loops before. -/
theorem overlay_repeats_shuffle :
    Exactly "[1 ~1 2@tom]:2 | 2" shuffle
      ∧ overlayFits (.blank 8 4) twoBars shuffle = true
      ∧ paintOverlay (.blank 8 4) twoBars shuffle (1 / 2 + (-5) * shuffle.length)
        = paintOverlay (.blank 8 4) twoBars shuffle (1 / 2)
      ∧ paintOverlay (paintOverlay (.blank 8 4) twoBars shuffle (1 / 2)) twoBars shuffle (1 / 2)
        = paintOverlay (.blank 8 4) twoBars shuffle (1 / 2) := by
  have exact : Exactly "[1 ~1 2@tom]:2 | 2" shuffle :=
    .compiled (eq_ok_of_toOption (by decide +kernel))
  obtain ⟨-, same, again⟩ := overlay_repeats exact (.blank 8 4) twoBars (1 / 2) (-5)
  exact ⟨exact, by decide +kernel, by exact_mod_cast same, again⟩

end Painter

end Metrograph
