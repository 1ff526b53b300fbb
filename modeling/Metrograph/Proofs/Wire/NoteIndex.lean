/-
The engine's running number of the last note at or before a beat, and the
instances of the loop it was made from.

The number at a beat is that of the last instance by it, for beats before
zero and before the first note as well (`noteIndexAt_ofLoop`). The overlay
draws the instances in a range. Hence both count the same instances: the
numbers at two beats are as far apart as instances lie between, and the
overlay draws as many, up to those that lie at the ends of the range, of
which it takes the first and the numbers the last.
-/
import Metrograph.Proofs.Rhythm.Formula
import Metrograph.Proofs.Rhythm.Instances
import Metrograph.Proofs.Wire.Bisection

namespace Metrograph.Wire

-- ======================================================= the note index

namespace Rhythm

open Metrograph.Rhythm (Exactly Loop compile)

variable {loop : Loop ℚ}

theorem size_ofLoop {α : Type} [Scalar α] {loop : Loop α} :
    (ofLoop loop).notes.size = loop.notes.length := by
  unfold ofLoop
  rw [List.size_toArray, List.length_map]

theorem length_ofLoop : (ofLoop loop).length = loop.length := sub_zero loop.length

/-- Whether a note starts by a time, in terms of the loop. -/
theorem startsBy_iff {t : ℚ} {place : ℕ} :
    (ofLoop loop).startsBy t place = true
      ↔ ∃ lt : place < loop.notes.length, (loop.notes.get ⟨place, lt⟩).time ≤ t := by
  have note : (ofLoop loop).notes[place]? = loop.notes[place]?.map fun n => ⟨n.time, n.tags⟩ := by
    unfold ofLoop
    rw [List.getElem?_toArray, List.getElem?_map]
  unfold startsBy
  rw [note]
  by_cases lt : place < loop.notes.length
  · rw [List.getElem?_eq_getElem lt]
    exact decide_eq_true_iff.trans ⟨fun le => ⟨lt, le⟩, fun ⟨_, le⟩ => le⟩
  · rw [List.getElem?_eq_none (Nat.le_of_not_lt lt)]
    exact ⟨fun h => absurd h Bool.false_ne_true, fun ⟨lt', _⟩ => absurd lt' lt⟩

/-- A note that starts by a time is preceded by notes that do. -/
theorem startsBy_closed (h : loop.WellFormed) (t : ℚ) (i j : ℕ) (le : i ≤ j)
    (starts : (ofLoop loop).startsBy t j = true) : (ofLoop loop).startsBy t i = true := by
  obtain ⟨lt, time⟩ := startsBy_iff.mp starts
  rcases le.eq_or_lt with rfl | before
  · exact starts
  · have earlier : (loop.notes.get ⟨i, before.trans lt⟩).time < (loop.notes.get ⟨j, lt⟩).time :=
      h.time_lt before
    exact startsBy_iff.mpr ⟨before.trans lt, earlier.le.trans time⟩

/-- The number at a beat is that of the last instance at or before it. -/
theorem noteIndexAt_ofLoop (h : loop.WellFormed) (beat : ℚ) :
    ∃ m, (ofLoop loop).noteIndexAt beat = some m ∧ loop.LastBy beat m := by
  have loops : ¬ ((ofLoop loop).notes.size = 0 ∨ ¬ Scalar.isFinite (ofLoop loop).length = true
      ∨ (ofLoop loop).length ≤ Scalar.zero) := by
    rw [size_ofLoop, length_ofLoop]
    rintro (none | infinite | short)
    · exact h.sounds (List.length_eq_zero_iff.mp none)
    · exact infinite rfl
    · exact h.length_pos.not_ge short
  have start : beat - (ofLoop loop).start = beat := sub_zero beat
  unfold noteIndexAt
  rw [if_neg loops, if_pos (Exact.isFinite_eq beat)]
  refine ⟨_, rfl, ?_⟩
  rw [start, length_ofLoop, size_ofLoop, Exact.roundDown_eq, Exact.heldFloor_eq,
    Exact.overflow_eq]
  obtain ⟨upTo, passed⟩ := partitionPoint_spec
    (startsBy_closed h (beat - ⌊beat / loop.length⌋ * loop.length)) loop.notes.length
  refine h.lastBy ?_ ?_ upTo fun place => (passed place place.isLt).trans ?_
  · exact (le_div_iff₀ h.length_pos).mp (Int.floor_le _)
  · exact (div_lt_iff₀ h.length_pos).mp (Int.lt_floor_add_one _)
  · exact startsBy_iff.trans ⟨fun ⟨_, time⟩ => time, fun time => ⟨place.isLt, time⟩⟩

open scoped Classical in
/-- The numbers at two beats are as far apart as instances lie in between, and
the overlay draws as many over the range, but for those at its ends. -/
theorem noteIndexAt_counts_instances {text : String} (exact : Exactly text loop) :
    (∀ a b : ℚ, a ≤ b → ∃ p q : ℤ,
      (ofLoop loop).noteIndexAt a = some p ∧ (ofLoop loop).noteIndexAt b = some q
        ∧ {i : loop.Instance | a < i.beat ∧ i.beat ≤ b}.Finite
        ∧ q - p = {i : loop.Instance | a < i.beat ∧ i.beat ≤ b}.ncard
        ∧ p ≤ q ∧ (p ≠ q ↔ ∃ i : loop.Instance, a < i.beat ∧ i.beat ≤ b))
    ∧ ∀ start stop : ℚ, start < stop → ∃ p q : ℤ,
      (ofLoop loop).noteIndexAt start = some p ∧ (ofLoop loop).noteIndexAt stop = some q
        ∧ ((loop.occurrences start stop).length : ℤ)
          = q - p + (if loop.Sounds start then 1 else 0) - (if loop.Sounds stop then 1 else 0) := by
  have h := exact.wellFormed
  constructor
  · intro a b le
    obtain ⟨p, here, first⟩ := noteIndexAt_ofLoop h a
    obtain ⟨q, there, last⟩ := noteIndexAt_ofLoop h b
    obtain ⟨finite, count⟩ := first.count h.sounds last le
    exact ⟨p, q, here, there, finite, count, first.mono h.sounds last le,
      first.ne_iff h.sounds last le⟩
  · intro start stop lt
    obtain ⟨p, here, first⟩ := noteIndexAt_ofLoop h start
    obtain ⟨q, there, last⟩ := noteIndexAt_ofLoop h stop
    refine ⟨p, q, here, there, ?_⟩
    rw [h.length_occurrences lt]
    exact first.count_from h last lt

/-- One note in the middle of each beat. -/
def offbeat : Loop ℚ := ⟨[⟨1 / 2, .subdivision, false, none⟩], 1, "[~1 1]"⟩

/-- The text of that loop compiles to it. -/
theorem compile_offbeat : compile "[~1 1]" = .ok offbeat :=
  eq_ok_of_toOption (by decide +kernel)

open scoped Classical in
/-- From before the repetition at beat zero up to the third note after it there
are three notes, the last of which the overlay leaves to the next range. -/
theorem noteIndexAt_counts_instances_offbeat :
    compile "[~1 1]" = .ok offbeat
      ∧ {i : offbeat.Instance | -1 / 4 < i.beat ∧ i.beat ≤ 5 / 2}.ncard = 3
      ∧ ((offbeat.occurrences (-1 / 4) (5 / 2)).length : ℤ)
        = 3 + (if offbeat.Sounds (-1 / 4) then 1 else 0)
          - (if offbeat.Sounds (5 / 2) then 1 else 0) := by
  have first : (ofLoop offbeat).noteIndexAt (-1 / 4) = some (-1) := by decide +kernel
  have last : (ofLoop offbeat).noteIndexAt (5 / 2) = some 2 := by decide +kernel
  obtain ⟨counted, drawn⟩ := noteIndexAt_counts_instances (.compiled compile_offbeat)
  obtain ⟨p, q, here, there, -, count, -, -⟩ := counted (-1 / 4) (5 / 2) (by norm_num)
  obtain ⟨p', q', here', there', length⟩ := drawn (-1 / 4) (5 / 2) (by norm_num)
  cases first.symm.trans here
  cases last.symm.trans there
  cases first.symm.trans here'
  cases last.symm.trans there'
  exact ⟨compile_offbeat, Int.ofNat.inj count.symm, length⟩

end Rhythm

end Metrograph.Wire
