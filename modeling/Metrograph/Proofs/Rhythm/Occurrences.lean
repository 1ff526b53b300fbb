/-
What falls in a range of beats, and how much of it.

# One note

A note falls in `[start, stop)` in those repetitions whose numbers lie
between two ceilings (`mem_range_iff`). The ceilings of two numbers that lie
`w` apart are `⌊w⌋` or `⌈w⌉` apart, so that is how often the note is heard
in a range as long as `w` repetitions (`count_place`).

# All notes

The beats of a loop increase with the running numbers of its instances, so
the list of what falls in the range is in order, and one beat stands in it
once. It has at most `⌈w⌉` entries for each note. A loop that fits a grid
has no more lines in a window than the grid has columns of pixels in all its
rows, and rounding up to whole repetitions adds one line for each note.
-/
import Mathlib.Data.Int.ConditionallyCompleteOrder
import Metrograph.Proofs.Canvas.Overwrite
import Metrograph.Proofs.Rhythm.Formula
import Metrograph.Proofs.Rhythm.Instances

namespace Metrograph.Rhythm

namespace Loop

variable {loop : Loop ℚ} {start stop : ℚ}

-- ============================================================= one note

/-- Ceilings are as far apart as their numbers, rounded down or up. -/
theorem ceil_add_sub_ceil (x w : ℚ) :
    ⌈x + w⌉ - ⌈x⌉ = ⌊w⌋ ∨ ⌈x + w⌉ - ⌈x⌉ = ⌈w⌉ := by
  have least : ⌈x⌉ + ⌊w⌋ ≤ ⌈x + w⌉ := by
    rw [← Int.ceil_add_intCast]
    exact Int.ceil_le_ceil (add_le_add_right (Int.floor_le w) x)
  have most : ⌈x + w⌉ ≤ ⌈x⌉ + ⌈w⌉ := Int.ceil_add_le x w
  have near : ⌈w⌉ ≤ ⌊w⌋ + 1 := Int.ceil_le_floor_add_one w
  omega

/-- The repetitions in which a note falls in a range. -/
def repetitionsOf (loop : Loop ℚ) (start stop : ℚ) (place : Fin loop.notes.length) : List ℤ :=
  ((loop.drawn start stop).filter (·.place = place)).map Instance.repetition

theorem nodup_repetitionsOf (start stop : ℚ) (place : Fin loop.notes.length) :
    (loop.repetitionsOf start stop place).Nodup := by
  refine (List.Nodup.filter _ (nodup_drawn loop start stop)).map_on fun i hi j hj same => ?_
  have here := of_decide_eq_true (List.mem_filter.mp hi).2
  have there := of_decide_eq_true (List.mem_filter.mp hj).2
  exact Instance.ext same (here.trans there.symm)

namespace WellFormed

/-- An instance falls in a range if its repetition lies between two ceilings. -/
theorem mem_range_iff (h : loop.WellFormed) (i : loop.Instance) :
    (start ≤ i.beat ∧ i.beat < stop)
      ↔ i.repetition ∈ Finset.Ico ⌈(start - i.note.time) / loop.length⌉
        ⌈(stop - i.note.time) / loop.length⌉ := by
  rw [Finset.mem_Ico, Int.ceil_le, Int.lt_ceil, div_le_iff₀ h.length_pos,
    lt_div_iff₀ h.length_pos, sub_le_iff_le_add, lt_sub_iff_add_lt]
  exact Iff.rfl

/-- Notes are told apart by their times. -/
theorem note_eq_iff (h : loop.WellFormed) (i : loop.Instance) (place : Fin loop.notes.length) :
    i.note = loop.notes.get place ↔ i.place = place := by
  refine ⟨fun same => ?_, fun same => congrArg loop.notes.get same⟩
  have time : (loop.notes.get i.place).time = (loop.notes.get place).time := congrArg Note.time same
  rcases lt_trichotomy i.place place with before | here | after
  · exact absurd time (h.time_lt before).ne
  · exact here
  · exact absurd time (h.time_lt after).ne'

/-- A note is heard in every repetition between its two ceilings. -/
theorem toFinset_repetitionsOf (h : loop.WellFormed) (place : Fin loop.notes.length) :
    (loop.repetitionsOf start stop place).toFinset
      = Finset.Ico ⌈(start - (loop.notes.get place).time) / loop.length⌉
        ⌈(stop - (loop.notes.get place).time) / loop.length⌉ := by
  ext k
  unfold repetitionsOf
  rw [List.mem_toFinset, List.mem_map]
  constructor
  · rintro ⟨i, member, rfl⟩
    obtain ⟨drawn, here⟩ := List.mem_filter.mp member
    obtain rfl := of_decide_eq_true here
    exact (h.mem_range_iff i).mp (h.mem_drawn.mp drawn)
  · intro inside
    have drawn : ⟨k, place⟩ ∈ loop.drawn start stop :=
      h.mem_drawn.mpr ((h.mem_range_iff ⟨k, place⟩).mpr inside)
    exact ⟨⟨k, place⟩, List.mem_filter.mpr ⟨drawn, decide_eq_true rfl⟩, rfl⟩

/-- How often one note is drawn, counted by the repetitions in which it falls in
the interval. -/
theorem countP_place (h : loop.WellFormed) (place : Fin loop.notes.length) :
    (loop.drawn start stop).countP (·.place = place)
      = (⌈(stop - (loop.notes.get place).time) / loop.length⌉
        - ⌈(start - (loop.notes.get place).time) / loop.length⌉).toNat := by
  rw [← Int.card_Ico, ← h.toFinset_repetitionsOf,
    List.toFinset_card_of_nodup (nodup_repetitionsOf start stop place)]
  unfold repetitionsOf
  rw [List.length_map, List.countP_eq_length_filter]

/-- How often one note falls in a range. -/
theorem count_place (h : loop.WellFormed) (lt : start < stop) (place : Fin loop.notes.length) :
    (((loop.drawn start stop).countP (·.place = place) : ℕ) : ℤ)
        = ⌊(stop - start) / loop.length⌋
      ∨ (((loop.drawn start stop).countP (·.place = place) : ℕ) : ℤ)
        = ⌈(stop - start) / loop.length⌉ := by
  have count : (loop.drawn start stop).countP (·.place = place) = _ := h.countP_place place
  generalize (loop.notes.get place).time = time at count
  have apart : (stop - time) / loop.length
      = (start - time) / loop.length + (stop - start) / loop.length := by
    rw [← add_div]
    congr 1
    ring
  have ordered : ⌈(start - time) / loop.length⌉ ≤ ⌈(stop - time) / loop.length⌉ :=
    Int.ceil_le_ceil (div_le_div_of_nonneg_right (sub_le_sub_right lt.le time) h.length_pos.le)
  rw [count, Int.toNat_of_nonneg (Int.sub_nonneg_of_le ordered), apart]
  exact ceil_add_sub_ceil _ _

-- ============================================================ all notes

/-- A range holds each note at most as often as it takes whole repetitions to
cover it. -/
theorem length_drawn_le (h : loop.WellFormed) (lt : start < stop) :
    ((loop.drawn start stop).length : ℤ)
      ≤ ⌈(stop - start) / loop.length⌉ * loop.notes.length := by
  have turns : (0 : ℤ) ≤ ⌈(stop - start) / loop.length⌉ :=
    Int.ceil_nonneg (div_nonneg (sub_nonneg.mpr lt.le) h.length_pos.le)
  have distinct := nodup_drawn loop start stop
  have each : ∀ place ∈ (loop.drawn start stop).toFinset.image Instance.place,
      ((loop.drawn start stop).toFinset.filter (·.place = place)).card
        ≤ ⌈(stop - start) / loop.length⌉.toNat := by
    intro place _
    have count := h.count_place lt place
    have near := Int.floor_le_ceil ((stop - start) / loop.length)
    have fibre : ((loop.drawn start stop).toFinset.filter (·.place = place)).card
        = (loop.drawn start stop).countP (·.place = place) := by
      rw [List.countP_eq_length_filter, ← List.toFinset_card_of_nodup (distinct.filter _),
        List.toFinset_filter]
      congr 1
      ext i
      simp
    omega
  have total := Finset.card_le_mul_card_image _ _ each
  rw [List.toFinset_card_of_nodup distinct] at total
  have places : ((loop.drawn start stop).toFinset.image Instance.place).card
      ≤ loop.notes.length := by
    simpa using Finset.card_le_univ ((loop.drawn start stop).toFinset.image Instance.place)
  have bound := total.trans (Nat.mul_le_mul_left _ places)
  calc ((loop.drawn start stop).length : ℤ)
      ≤ ((⌈(stop - start) / loop.length⌉.toNat * loop.notes.length : ℕ) : ℤ) := by
        exact_mod_cast bound
    _ = ⌈(stop - start) / loop.length⌉ * loop.notes.length := by
        rw [Nat.cast_mul, Int.toNat_of_nonneg turns]

/-- What is listed: a note of the loop, a whole number of repetitions later or
earlier, in the interval. -/
theorem mem_occurrences (h : loop.WellFormed) (lt : start < stop) {beat : ℚ} {note : Note ℚ} :
    (beat, note) ∈ loop.occurrences start stop
      ↔ note ∈ loop.notes ∧ (∃ k : ℤ, beat = k * loop.length + note.time)
        ∧ start ≤ beat ∧ beat < stop := by
  rw [h.occurrences_eq lt, List.mem_map]
  constructor
  · rintro ⟨i, drawn, same⟩
    cases same
    exact ⟨List.get_mem loop.notes i.place, ⟨i.repetition, rfl⟩, h.mem_drawn.mp drawn⟩
  · rintro ⟨member, ⟨k, rfl⟩, inside⟩
    obtain ⟨place, rfl⟩ := List.get_of_mem member
    exact ⟨⟨k, place⟩, h.mem_drawn.mpr inside, rfl⟩

/-- No two entries of a listing are at one beat. -/
theorem increasing_occurrences (h : loop.WellFormed) (lt : start < stop) :
    (loop.occurrences start stop).Pairwise fun a b => a.1 < b.1 := by
  rw [h.occurrences_eq lt, List.pairwise_map]
  exact ((increasing_instancesOver _ _).filter _).imp h.beat_lt_of_number_lt

/-- How often one note is among what falls in a range. -/
theorem count_note (h : loop.WellFormed) (lt : start < stop) {note : Note ℚ}
    (member : note ∈ loop.notes) :
    (((loop.occurrences start stop).countP (·.2 = note) : ℕ) : ℤ)
        = ⌊(stop - start) / loop.length⌋
      ∨ (((loop.occurrences start stop).countP (·.2 = note) : ℕ) : ℤ)
        = ⌈(stop - start) / loop.length⌉ := by
  obtain ⟨place, rfl⟩ := List.get_of_mem member
  have same : (loop.occurrences start stop).countP (·.2 = loop.notes.get place)
      = (loop.drawn start stop).countP (·.place = place) := by
    rw [h.occurrences_eq lt, List.countP_map]
    refine List.countP_congr fun i _ => ?_
    simp only [Function.comp_apply, decide_eq_true_eq]
    exact h.note_eq_iff i place
  rw [same]
  exact h.count_place lt place

end WellFormed

-- =============================================================== overlay

/-- One window of a loop that fits a grid has no more lines than the grid has
columns in all rows, and one more for each note. -/
theorem WellFormed.length_overlay_le (h : loop.WellFormed) {c : Canvas} {l : Grid.Layout ℚ}
    (fits : Painter.overlayFits c l loop = true) (offset : ℚ) :
    (loop.occurrences (-offset) (l.window - offset)).length
      ≤ c.width * l.rows + loop.notes.length := by
  by_cases lt : -offset < l.window - offset
  · have lines : (loop.notes.length : ℚ) * l.window / loop.length ≤ c.width * l.rows :=
      of_decide_eq_true fits
    have beats : l.window - offset - -offset = l.window := by ring
    have most := h.length_drawn_le lt
    rw [beats] at most
    have turns : (⌈l.window / loop.length⌉ : ℚ) ≤ l.window / loop.length + 1 :=
      (Int.ceil_lt_add_one _).le
    have bound : ((loop.drawn (-offset) (l.window - offset)).length : ℚ)
        ≤ c.width * l.rows + loop.notes.length :=
      calc ((loop.drawn (-offset) (l.window - offset)).length : ℚ)
          ≤ ⌈l.window / loop.length⌉ * loop.notes.length := by exact_mod_cast most
        _ ≤ (l.window / loop.length + 1) * loop.notes.length :=
            mul_le_mul_of_nonneg_right turns (Nat.cast_nonneg _)
        _ = loop.notes.length * l.window / loop.length + loop.notes.length := by ring
        _ ≤ c.width * l.rows + loop.notes.length := by linarith
    rw [h.occurrences_eq lt, List.length_map]
    exact_mod_cast bound
  · have none : loop.occurrences (-offset) (l.window - offset) = [] := by
      unfold occurrences occurrences?
      rw [if_neg fun range => range.2.2.1 (not_lt.mp lt)]
      rfl
    rw [none]
    exact Nat.zero_le _

/-- Every rhythm is listed to an end: in a range stand the instances that lie
in it, in order, each once, and of each note as many as the range is long in
loops, rounded down or up. If a loop fits a grid, what is painted over the row
lines are the lines of one window, however it is shifted, and they are as few
as the grid has columns for, but for one of each note. -/
theorem occurrences_exact {text : String} (exact : Exactly text loop) :
    (∀ start stop : ℚ, start < stop →
      loop.occurrences? start stop = some (loop.occurrences start stop)
        ∧ (∀ beat note, (beat, note) ∈ loop.occurrences start stop
          ↔ note ∈ loop.notes ∧ (∃ k : ℤ, beat = k * loop.length + note.time)
            ∧ start ≤ beat ∧ beat < stop)
        ∧ ((loop.occurrences start stop).Pairwise fun a b => a.1 < b.1)
        ∧ ∀ note ∈ loop.notes,
          (((loop.occurrences start stop).countP (·.2 = note) : ℕ) : ℤ)
              = ⌊(stop - start) / loop.length⌋
            ∨ (((loop.occurrences start stop).countP (·.2 = note) : ℕ) : ℤ)
              = ⌈(stop - start) / loop.length⌉)
    ∧ ∀ (c : Canvas) (l : Grid.Layout ℚ) (offset : ℚ), Painter.overlayFits c l loop = true →
      ∃ lines, lines = loop.occurrences (-offset) (l.window - offset)
        ∧ lines.length ≤ c.width * l.rows + loop.notes.length
        ∧ Painter.paintOverlay c l loop offset
          = lines.foldl (fun c (beat, note) => (Painter.rowOffsets l).foldl
              (fun c k => Painter.paintLine c l (beat + offset) (Painter.lineColor note) k) c)
            (Painter.paintRowLines c l) := by
  have h := exact.wellFormed
  refine ⟨fun start stop lt => ⟨?_, fun beat note => h.mem_occurrences lt,
    h.increasing_occurrences lt, fun note member => h.count_note lt member⟩, ?_⟩
  · rw [h.occurrences?_eq lt, h.occurrences_eq lt]
  · intro c l offset fits
    refine ⟨_, rfl, h.length_overlay_le fits offset, ?_⟩
    have width : (Painter.paintRowLines c l).width = c.width :=
      ((Painter.paints_paintRowLines l).size c).1
    have still : Painter.overlayFits (Painter.paintRowLines c l) l loop = true := by
      unfold Painter.overlayFits
      rw [width]
      exact fits
    unfold Painter.paintOverlay
    exact if_pos still

/-- Two rows of three beats with a margin, on a canvas of eight pixels. -/
def twoBars : Grid.Layout ℚ := ⟨⟨[3, 3], 1 / 2, 8, 4⟩, by decide +kernel⟩

/-- A range that begins before beat zero: three of the notes are heard twice in
it and one once. In two bars, half a beat late, there are eight lines. -/
theorem occurrences_exact_shuffle :
    Exactly "[1 ~1 2@tom]:2 | 2" shuffle
      ∧ (shuffle.occurrences (-1) (13 / 4)).map Prod.fst = [-1, -1 / 2, 0, 1, 2, 5 / 2, 3]
      ∧ ((shuffle.occurrences (-1) (13 / 4)).Pairwise fun a b => a.1 < b.1)
      ∧ Painter.overlayFits (.blank 8 4) twoBars shuffle = true
      ∧ (shuffle.occurrences (-1 / 2) (twoBars.window - 1 / 2)).length ≤ 8 * 2 + 4 := by
  have exact : Exactly "[1 ~1 2@tom]:2 | 2" shuffle :=
    .compiled (eq_ok_of_toOption (by decide +kernel))
  have fits : Painter.overlayFits (.blank 8 4) twoBars shuffle = true := by decide +kernel
  have beats : (shuffle.drawn (-1) (13 / 4)).map Instance.beat
      = [-1, -1 / 2, 0, 1, 2, 5 / 2, 3] := by
    decide +kernel
  obtain ⟨listed, painted⟩ := occurrences_exact exact
  obtain ⟨-, -, increasing, -⟩ := listed (-1) (13 / 4) (by norm_num)
  obtain ⟨lines, rfl, few, -⟩ := painted (.blank 8 4) twoBars (1 / 2) fits
  refine ⟨exact, ?_, increasing, fits, ?_⟩
  · rw [exact.wellFormed.occurrences_eq (by norm_num), List.map_map]
    exact beats
  · rwa [← neg_div] at few

end Loop

end Metrograph.Rhythm
