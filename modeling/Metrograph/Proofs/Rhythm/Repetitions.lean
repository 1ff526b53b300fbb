/-
Going through the repetitions of a loop in binary64: when it ends.

# The counter

The counter is a whole number at first, and one is added to it for each
repetition. Up to `2 ^ 53` that counts; there it comes to rest, because
the next odd number is not held. A counter that starts further out moves
at most once (`Binary64.next_next`), by what rounding makes of it. So
there is a largest value it takes, `restingCounter`, and it takes it
after finitely many steps.

# The end

A product with the length of the loop does not decrease when the counter
does not, in binary64 as elsewhere. So some repetition fails to begin
before the end of the interval exactly if the resting one does
(`isSome_instancesFrom`), and otherwise the listing goes on for ever.
Which of the two is the case can be read off the interval
(`isSome_occurrences`); it ends wherever both ends of the interval are
within `2 ^ 53` repetitions of beat zero (`isSome_occurrences_of_near`).
-/
import Metrograph.Proofs.Scalar.Counting
import Metrograph.Proofs.Rhythm.Times

namespace Metrograph.Rhythm

open Binary64 hiding value
open Scalar (value)

-- ========================================================= the counter

/-- A listing ends exactly if counting repetitions comes to one that does not
begin before the end. -/
theorem Loop.isSome_instancesFrom_iff {α : Type} [Scalar α] (loop : Loop α) (start stop : α)
    (found : Array (α × Note α)) (repetition : α) :
    (loop.instancesFrom start stop found repetition).isSome = true
      ↔ ∃ k, ¬ (· + Scalar.one)^[k] repetition * loop.length < stop := by
  constructor
  · intro ends
    obtain ⟨all, ends⟩ := Option.isSome_iff_exists.mp ends
    refine instancesFrom.partial_correctness loop start stop (fun _ r _ =>
      ∃ k, ¬ (· + Scalar.one)^[k] r * loop.length < stop) ?_ found repetition all ends
    intro rest ih found r all ends
    split_ifs at ends with begins
    · obtain ⟨k, past⟩ := ih _ _ _ ends
      exact ⟨k + 1, past⟩
    · exact ⟨0, begins⟩
  · rintro ⟨k, past⟩
    induction k generalizing found repetition with
    | zero =>
      have past : ¬ repetition * loop.length < stop := past
      rw [instancesFrom, if_neg past]
      rfl
    | succ k ih =>
      rw [instancesFrom]
      split_ifs with begins
      · exact ih _ _ past
      · rfl

/-- Where counting on from a whole number comes to rest. -/
def restingCounter (counter : Float) : Float :=
  if Scalar.ofInt (-2 ^ 53 - 2) ≤ counter ∧ counter ≤ Scalar.ofInt lastCount then
    Scalar.ofInt lastCount
  else counter + Scalar.one

theorem hasValue_lastCount : HasValue (Scalar.ofInt lastCount) lastCount := by
  have exact : nearest lastCount = lastCount := nearest_intCast (by decide)
  rw [← exact]
  exact hasValue_ofInt lastCount

/-- The counter comes to rest at what counting on comes to. -/
theorem hasValue_restingCounter {c : Float} {n : ℤ} (hc : HasValue c n) :
    HasValue (restingCounter c) (countedOn n) := by
  have first : HasValue (Scalar.ofInt (-2 ^ 53 - 2)) (-2 ^ 53 - 2 : ℤ) :=
    ⟨by decide +kernel, by decide +kernel⟩
  have same : (Scalar.ofInt (-2 ^ 53 - 2) ≤ c ∧ c ≤ Scalar.ofInt lastCount)
      ↔ -2 ^ 53 - 2 ≤ n ∧ n ≤ 2 ^ 53 := by
    rw [first.le_iff hc, hc.le_iff hasValue_lastCount, Int.cast_le, Int.cast_le]
    rfl
  unfold restingCounter countedOn
  simp only [same]
  split_ifs with near
  · exact hasValue_lastCount
  · exact hc.next

/-- The repetition that a listing begins with is a whole number. -/
theorem hasValue_counter {start length : Float} {s l : ℚ} (hs : HasValue start s)
    (hl : HasValue length l) (finite : |s| < limit) (short : l < limit) (positive : 0 < l) :
    HasValue (Scalar.roundDown (start / length)) (⌊nearest (s / l)⌋ : ℤ) := by
  have quotient := hs.div hl finite (by rwa [abs_of_pos positive]) positive.ne'
  have exact : nearest (⌊nearest (s / l)⌋ : ℤ) = (⌊nearest (s / l)⌋ : ℤ) :=
    nearest_eq_self (kept_nearest _).floor (abs_floor_le_limit quotient.size_le)
  rw [← exact]
  exact quotient.roundDown

-- ============================================================= the end

section

variable {loop : Loop Float} {l : ℚ} (length : HasValue loop.length l) (positive : 0 < l)
  (short : l < limit)

include length positive short

/-- A listing ends exactly if the repetition at which its counter comes to rest
does not begin before its end. -/
theorem isSome_instancesFrom {c start stop : Float} {n : ℤ} {t : ℚ} (counter : HasValue c n)
    (stops : HasValue stop t) (found : Array (Float × Note Float)) :
    (loop.instancesFrom start stop found c).isSome = true
      ↔ ¬ restingCounter c * loop.length < stop := by
  have resting := hasValue_restingCounter counter
  have begin_resting := resting.times length positive short
  have repetition (k : ℕ) := counter.iterate_next k
  have begins (k : ℕ) := (repetition k).times length positive short
  rw [Loop.isSome_instancesFrom_iff, begin_resting.lt_iff stops]
  constructor
  · rintro ⟨k, past⟩ before
    rw [(begins k).lt_iff stops] at past
    have le := times_mono (iterate_next_le counter.kept k) (repetition k).size_le
      resting.size_le positive.le
    exact past (le.trans_lt before)
  · intro past
    obtain ⟨k, reached⟩ := exists_iterate_next counter.kept
    refine ⟨k, ?_⟩
    rw [(begins k).lt_iff stops, reached]
    exact past

end

/-- The repetition that the listing of an interval begins with. -/
def Loop.firstRepetition (loop : Loop Float) (start : Float) : Float :=
  Scalar.roundDown (start / loop.length)

/-- A listing ends exactly if the repetition at which the counter rests begins
no earlier than its end. -/
theorem isSome_occurrences_iff {text : String} {loop : Loop Float}
    (compiled : compile text = .ok loop) (bounded : Scalar.isFinite loop.length = true)
    {start stop : Float} {s t : ℚ} (hs : HasValue start s) (ht : HasValue stop t)
    (fs : |s| < limit) (ft : |t| < limit) (less : s < t) :
    (loop.occurrences? start stop).isSome = true
      ↔ ¬ restingCounter (loop.firstRepetition start) * loop.length < stop := by
  obtain ⟨l, length, positive⟩ := hasValue_length compiled
  obtain ⟨-, -, -, -, -, sounds, -, -⟩ := compile_eq_ok compiled
  have short := length.isFinite_iff.mp bounded
  rw [abs_of_pos positive] at short
  have proper : Scalar.isFinite start ∧ Scalar.isFinite stop ∧ ¬ stop ≤ start ∧ loop.notes ≠ [] :=
    ⟨hs.isFinite_iff.mpr fs, ht.isFinite_iff.mpr ft, fun le => ((ht.le_iff hs).mp le).not_gt less,
      sounds⟩
  have counter := hasValue_counter hs length fs short positive
  unfold Loop.occurrences?
  rw [if_pos proper, Option.isSome_map]
  exact isSome_instancesFrom length positive short counter ht #[]

/-- The instances of a loop of finite length in a finite interval are listed
exactly if the repetition at which the counter comes to rest does not begin
before the end of the interval. -/
theorem isSome_occurrences {text : String} {loop : Loop Float}
    (compiled : compile text = .ok loop) (bounded : Scalar.isFinite loop.length = true)
    {start stop : Float} (hs : Scalar.isFinite start = true) (ht : Scalar.isFinite stop = true)
    (less : start < stop) :
    (loop.occurrences? start stop).isSome = true
      ↔ ¬ restingCounter (loop.firstRepetition start) * loop.length < stop := by
  have first := hasValue_of_isFinite hs
  have last := hasValue_of_isFinite ht
  exact isSome_occurrences_iff compiled bounded first last (first.isFinite_iff.mp hs)
    (last.isFinite_iff.mp ht) ((first.lt_iff last).mp less)

/-- The standard loop over the window of the standard grid. -/
theorem isSome_occurrences_standard :
    compile "2:1" = .ok (Loop.standard : Loop Float)
      ∧ ((Loop.standard : Loop Float).occurrences? 0 3.5).isSome = true := by
  have compiled : compile "2:1" = .ok (Loop.standard : Loop Float) :=
    eq_ok_of_toOption (by decide +kernel)
  have rests : ¬ restingCounter ((Loop.standard : Loop Float).firstRepetition 0)
      * (Loop.standard : Loop Float).length < 3.5 := by decide +kernel
  exact ⟨compiled, (isSome_occurrences compiled (by decide +kernel) (by decide +kernel)
    (by decide +kernel) (by decide +kernel)).mpr rests⟩

/-- No pattern keeps a listing going near beat zero. -/
theorem isSome_occurrences_of_near {text : String} {loop : Loop Float}
    (compiled : compile text = .ok loop) (bounded : Scalar.isFinite loop.length = true)
    {start stop : Float} (hs : Scalar.isFinite start = true) (ht : Scalar.isFinite stop = true)
    (early : -lastCount * value loop.length ≤ value start)
    (late : value stop ≤ lastCount * value loop.length) :
    (loop.occurrences? start stop).isSome = true := by
  obtain ⟨l, length, positive⟩ := hasValue_length compiled
  have short := length.isFinite_iff.mp bounded
  rw [abs_of_pos positive] at short
  have first := hasValue_of_isFinite hs
  have last := hasValue_of_isFinite ht
  have fs := first.isFinite_iff.mp hs
  rw [length.value_eq] at early late
  by_cases less : value start < value stop
  · have kept : Kept (lastCount : ℚ) := hasValue_lastCount.kept
    have size : |(lastCount : ℚ)| ≤ limit := hasValue_lastCount.size_le
    have low : -(lastCount : ℚ) ≤ nearest (value start / l) := by
      refine le_nearest kept.neg (by rwa [abs_neg]) ?_
      rwa [le_div_iff₀ positive]
    have high : nearest (value start / l) ≤ lastCount := by
      refine nearest_le kept size ?_
      rw [div_le_iff₀ positive]
      exact less.le.trans late
    have resting := (hasValue_restingCounter (hasValue_counter first length fs short
      positive)).times length positive short
    rw [countedOn_floor low high, times, if_pos (abs_intCast_lt_limit (by decide))] at resting
    refine (isSome_occurrences_iff compiled bounded first last fs (last.isFinite_iff.mp ht)
      less).mpr fun before => ?_
    have reached := le_nearest last.kept last.size_le late
    exact reached.not_gt ((resting.lt_iff last).mp before)
  · have empty : ¬ (Scalar.isFinite start = true ∧ Scalar.isFinite stop = true ∧ ¬ stop ≤ start
        ∧ loop.notes ≠ []) := fun proper =>
      proper.2.2.1 ((last.le_iff first).mpr (not_lt.mp less))
    rw [Loop.occurrences?, if_neg empty]
    rfl

/-- A note in the last quarter of a loop of 31 sixteenths. -/
def lateNote : Loop Float :=
  ⟨[⟨1.453125, .subdivision, false, none⟩], 1.9375, "[~3 1]:1.9375"⟩

/-- About `2 ^ 53` repetitions from beat zero the listing can go on for ever. -/
theorem occurrences_lateNote :
    compile "[~3 1]:1.9375" = .ok lateNote
      ∧ Scalar.isFinite lateNote.length = true
      ∧ (17451448556060672 : Float) < 17451448556060674
      ∧ lateNote.occurrences? 17451448556060672 17451448556060674 = none := by
  have compiled : compile "[~3 1]:1.9375" = .ok lateNote := eq_ok_of_toOption (by decide +kernel)
  have less : (17451448556060672 : Float) < 17451448556060674 := by decide +kernel
  have bounded : Scalar.isFinite lateNote.length = true := by decide +kernel
  have first : HasValue (17451448556060672 : Float) 17451448556060672 :=
    ⟨by decide +kernel, by decide +kernel⟩
  have last : HasValue (17451448556060674 : Float) 17451448556060674 :=
    ⟨by decide +kernel, by decide +kernel⟩
  have begins : restingCounter (lateNote.firstRepetition 17451448556060672) * lateNote.length
      < 17451448556060674 := by decide +kernel
  have goes_on := isSome_occurrences_iff compiled bounded first last
    (first.isFinite_iff.mp (by decide +kernel)) (last.isFinite_iff.mp (by decide +kernel))
    ((first.lt_iff last).mp less)
  refine ⟨compiled, bounded, less, Option.not_isSome_iff_eq_none.mp fun ends => ?_⟩
  exact goes_on.mp ends begins

end Metrograph.Rhythm
