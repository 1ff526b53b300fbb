/-
The instances of a loop's notes, one of each note in every repetition.

# The numbering

The instances of a loop are numbered in the order of repetitions and
notes, from zero at the first note of the repetition that begins at beat
zero; below zero the numbers go on into the repetitions before it. Every
whole number is the number of exactly one instance (`number_injective`,
`number_surjective`), and in a well-formed loop a higher number means a
later beat (`beat_lt_of_number_lt`).

# The listing

Going through repetition after repetition comes to an end, and keeping
what falls in an interval lists all instances in it, each once
(`mem_drawn`, `nodup_drawn`): the repetitions that are looked at are
enough for the interval, whatever its ends.
-/
import Mathlib.Data.Rat.Floor
import Mathlib.Data.Set.Card
import Mathlib.Order.Interval.Finset.Basic
import Mathlib.Data.Int.Interval
import Metrograph.Proofs.Rhythm.Compiled

namespace Metrograph.Rhythm.Loop

/-- An instance of a note: a repetition of the loop, and a place among its
notes. -/
@[ext]
structure Instance (loop : Loop ℚ) where
  repetition : ℤ
  place : Fin loop.notes.length
  deriving DecidableEq

variable {loop : Loop ℚ}

namespace Instance

/-- The note that an instance is one of. -/
def note (i : loop.Instance) : Note ℚ := loop.notes.get i.place

/-- Where an instance lies. -/
def beat (i : loop.Instance) : ℚ := i.repetition * loop.length + i.note.time

/-- The running number of an instance. -/
def number (i : loop.Instance) : ℤ := i.repetition * loop.notes.length + (i.place : ℕ)

-- ======================================================== the numbering

/-- Instances of later repetitions have larger numbers. -/
theorem number_lt_of_repetition_lt {i j : loop.Instance} (h : i.repetition < j.repetition) :
    i.number < j.number := by
  have here : i.number < (i.repetition + 1) * loop.notes.length := by
    unfold number
    have := i.place.isLt
    rw [add_mul, one_mul]
    omega
  have there : j.repetition * loop.notes.length ≤ j.number := by
    unfold number
    omega
  have turns : (i.repetition + 1) * loop.notes.length ≤ j.repetition * loop.notes.length :=
    Int.mul_le_mul_of_nonneg_right h (by omega)
  exact here.trans_le (turns.trans there)

/-- The number tells the repetition and the place. -/
theorem number_injective : Function.Injective (@number loop) := by
  intro i j h
  have repetition : i.repetition = j.repetition := by
    rcases lt_trichotomy i.repetition j.repetition with lt | eq | gt
    · exact absurd h (number_lt_of_repetition_lt lt).ne
    · exact eq
    · exact absurd h (number_lt_of_repetition_lt gt).ne'
  have place : (i.place : ℕ) = j.place := by
    unfold number at h
    rw [repetition] at h
    omega
  exact Instance.ext repetition (Fin.ext place)

/-- Every whole number is that of an instance, if there are notes at all. -/
theorem number_surjective (sounds : loop.notes ≠ []) :
    Function.Surjective (@number loop) := by
  intro m
  have some_note : (0 : ℤ) < loop.notes.length := by
    exact_mod_cast List.length_pos_iff.mpr sounds
  have low := Int.emod_nonneg m some_note.ne'
  have high := Int.emod_lt_of_pos m some_note
  refine ⟨⟨m / loop.notes.length, ⟨(m % loop.notes.length).toNat, by omega⟩⟩, ?_⟩
  have whole := Int.mul_ediv_add_emod m loop.notes.length
  unfold number
  dsimp only
  rw [Int.toNat_of_nonneg low, mul_comm]
  exact whole

/-- Between two numbers there are as many instances as numbers. -/
theorem count_numbers (sounds : loop.notes ≠ []) (p q : ℤ) :
    {i : loop.Instance | p < i.number ∧ i.number ≤ q}.Finite
      ∧ {i : loop.Instance | p < i.number ∧ i.number ≤ q}.ncard = (q - p).toNat := by
  have preimage : {i : loop.Instance | p < i.number ∧ i.number ≤ q}
      = Set.preimage number (Set.Ioc p q) := rfl
  have range : Set.Ioc p q ⊆ Set.range (@number loop) :=
    fun m _ => number_surjective sounds m
  rw [preimage]
  refine ⟨(Set.finite_Ioc p q).preimage number_injective.injOn, ?_⟩
  rw [Set.ncard_preimage_of_injective_subset_range number_injective range,
    Set.ncard_eq_toFinset_card', Set.toFinset_Ioc, Int.card_Ioc]

end Instance

-- ============================================================ the beats

/-- Whether some instance lies at a beat. -/
def Sounds (loop : Loop ℚ) (beat : ℚ) : Prop := ∃ i : loop.Instance, i.beat = beat

namespace WellFormed

/-- An instance stays inside its repetition. -/
theorem beat_mem (h : loop.WellFormed) (i : loop.Instance) :
    i.repetition * loop.length ≤ i.beat ∧ i.beat < (i.repetition + 1) * loop.length := by
  obtain ⟨low, high⟩ := h.inside i.note (List.get_mem loop.notes i.place)
  unfold Instance.beat
  constructor
  · linarith
  · linarith

/-- Repetitions do not overlap. -/
theorem beat_lt_of_repetition_lt (h : loop.WellFormed) {i j : loop.Instance}
    (lt : i.repetition < j.repetition) : i.beat < j.beat := by
  have turns : (i.repetition + 1 : ℚ) ≤ j.repetition := by exact_mod_cast lt
  calc i.beat < (i.repetition + 1) * loop.length := (h.beat_mem i).2
    _ ≤ j.repetition * loop.length := mul_le_mul_of_nonneg_right turns h.length_pos.le
    _ ≤ j.beat := (h.beat_mem j).1

/-- Notes are in the order of their times, none at the same one. -/
theorem time_lt (h : loop.WellFormed) {p q : Fin loop.notes.length} (lt : p < q) :
    (loop.notes.get p).time < (loop.notes.get q).time :=
  List.pairwise_iff_get.mp h.increasing p q lt

/-- A higher number means a later beat. -/
theorem beat_lt_of_number_lt (h : loop.WellFormed) {i j : loop.Instance}
    (lt : i.number < j.number) : i.beat < j.beat := by
  rcases lt_trichotomy i.repetition j.repetition with before | same | after
  · exact h.beat_lt_of_repetition_lt before
  · have place : i.place < j.place := by
      unfold Instance.number at lt
      rw [same] at lt
      exact Fin.lt_def.mpr (by omega)
    unfold Instance.beat
    rw [same]
    exact add_lt_add_right (h.time_lt place) _
  · exact absurd lt (Instance.number_lt_of_repetition_lt after).not_gt

end WellFormed

-- ==================================================== the last by a beat

/-- A number is that of the last instance at or before a beat. -/
def LastBy (loop : Loop ℚ) (beat : ℚ) (m : ℤ) : Prop :=
  ∀ i : loop.Instance, i.number ≤ m ↔ i.beat ≤ beat

namespace LastBy

variable {a b : ℚ} {p q : ℤ}

/-- The instances numbered above one such number up to another lie after the
one beat, up to the other. -/
theorem between (first : loop.LastBy a p) (last : loop.LastBy b q) (i : loop.Instance) :
    (p < i.number ∧ i.number ≤ q) ↔ (a < i.beat ∧ i.beat ≤ b) := by
  rw [← not_le, first i, not_le, last i]

/-- By a later beat no fewer instances have come. -/
theorem mono (sounds : loop.notes ≠ []) (first : loop.LastBy a p) (last : loop.LastBy b q)
    (le : a ≤ b) : p ≤ q := by
  obtain ⟨i, rfl⟩ := Instance.number_surjective sounds p
  exact (last i).mpr (((first i).mp le_rfl).trans le)

/-- As many instances lie in `(a, b]` as the numbers are apart. -/
theorem count (sounds : loop.notes ≠ []) (first : loop.LastBy a p) (last : loop.LastBy b q)
    (le : a ≤ b) :
    {i : loop.Instance | a < i.beat ∧ i.beat ≤ b}.Finite
      ∧ q - p = {i : loop.Instance | a < i.beat ∧ i.beat ≤ b}.ncard := by
  obtain ⟨finite, card⟩ := Instance.count_numbers sounds p q
  have same : {i : loop.Instance | a < i.beat ∧ i.beat ≤ b}
      = {i : loop.Instance | p < i.number ∧ i.number ≤ q} :=
    Set.ext fun i => (between first last i).symm
  rw [same, card, Int.toNat_of_nonneg (Int.sub_nonneg_of_le (mono sounds first last le))]
  exact ⟨finite, rfl⟩

/-- The numbers differ where an instance lies in `(a, b]`. -/
theorem ne_iff (sounds : loop.notes ≠ []) (first : loop.LastBy a p) (last : loop.LastBy b q)
    (le : a ≤ b) : p ≠ q ↔ ∃ i : loop.Instance, a < i.beat ∧ i.beat ≤ b := by
  have ordered := mono sounds first last le
  constructor
  · intro differ
    obtain ⟨i, rfl⟩ := Instance.number_surjective sounds q
    exact ⟨i, (between first last i).mp ⟨lt_of_le_of_ne ordered differ, le_rfl⟩⟩
  · rintro ⟨i, within⟩ rfl
    obtain ⟨above, upTo⟩ := (between first last i).mpr within
    exact absurd upTo above.not_ge

open scoped Classical in
/-- An instance that lies at the beat itself is the last by it. -/
theorem beat_lt_iff (h : loop.WellFormed) (last : loop.LastBy b q) (i : loop.Instance) :
    i.beat < b ↔ i.number ≤ q - (if loop.Sounds b then 1 else 0) := by
  by_cases sounds : loop.Sounds b
  · obtain ⟨j, rfl⟩ := sounds
    obtain ⟨k, rfl⟩ := Instance.number_surjective h.sounds q
    have here : j.number = k.number := by
      refine le_antisymm ((last j).mpr le_rfl) (le_of_not_gt fun lt => ?_)
      exact (h.beat_lt_of_number_lt lt).not_ge ((last k).mp le_rfl)
    rw [if_pos ⟨j, rfl⟩, Int.le_sub_one_iff, ← here]
    refine ⟨fun lt => lt_of_not_ge fun le => ?_, h.beat_lt_of_number_lt⟩
    rcases le.eq_or_lt with same | later
    · rw [Instance.number_injective same] at lt
      exact lt.false
    · exact (h.beat_lt_of_number_lt later).asymm lt
  · rw [if_neg sounds, sub_zero, last i]
    exact ⟨le_of_lt, fun le => lt_of_le_of_ne le fun same => sounds ⟨i, same⟩⟩

open scoped Classical in
/-- As many instances lie in `[a, b)` as in `(a, b]`, but for those at the ends. -/
theorem count_from (h : loop.WellFormed) (first : loop.LastBy a p) (last : loop.LastBy b q)
    (lt : a < b) :
    ({i : loop.Instance | a ≤ i.beat ∧ i.beat < b}.ncard : ℤ)
      = q - p + (if loop.Sounds a then 1 else 0) - (if loop.Sounds b then 1 else 0) := by
  have same : {i : loop.Instance | a ≤ i.beat ∧ i.beat < b}
      = {i : loop.Instance | p - (if loop.Sounds a then 1 else 0) < i.number
        ∧ i.number ≤ q - (if loop.Sounds b then 1 else 0)} := by
    ext i
    rw [Set.mem_ofPred_eq, Set.mem_ofPred_eq, ← not_lt, beat_lt_iff h first i, not_le,
      beat_lt_iff h last i]
  rw [same, (Instance.count_numbers h.sounds _ _).2]
  -- what is at `b` is later than what is by `a`
  have ordered : p ≤ q - (if loop.Sounds b then 1 else 0) := by
    obtain ⟨i, rfl⟩ := Instance.number_surjective h.sounds p
    exact (beat_lt_iff h last i).mp (((first i).mp le_rfl).trans_lt lt)
  have earlier : (0 : ℤ) ≤ if loop.Sounds a then 1 else 0 := by
    split
    · exact zero_le_one
    · exact le_rfl
  omega

end LastBy

/-- The last instance by a beat, from the repetition that the beat falls into
and the number of notes that have passed in it. -/
theorem WellFormed.lastBy (h : loop.WellFormed) {beat : ℚ} {k : ℤ} {count : ℕ}
    (low : k * loop.length ≤ beat) (high : beat < (k + 1) * loop.length)
    (upTo : count ≤ loop.notes.length)
    (passed : ∀ place : Fin loop.notes.length,
      (place : ℕ) < count ↔ (loop.notes.get place).time ≤ beat - k * loop.length) :
    loop.LastBy beat (k * loop.notes.length + ((count : ℤ) - 1)) := by
  intro i
  obtain ⟨begins, ends⟩ := h.beat_mem i
  have place := i.place.isLt
  rcases lt_trichotomy i.repetition k with before | same | after
  · -- all of an earlier repetition is at or before the beat
    have turns : (i.repetition + 1 : ℚ) ≤ k := by exact_mod_cast before
    have numbers := Int.mul_le_mul_of_nonneg_right before (Int.natCast_nonneg loop.notes.length)
    refine iff_of_true ?_ ?_
    · unfold Instance.number
      rw [add_mul, one_mul] at numbers
      omega
    · exact (ends.le.trans (mul_le_mul_of_nonneg_right turns h.length_pos.le)).trans low
  · have starts := (passed i.place).trans le_sub_iff_add_le'
    unfold Instance.number Instance.beat Instance.note
    rw [same, ← starts]
    omega
  · -- a later repetition begins after the beat
    have turns : (k + 1 : ℚ) ≤ i.repetition := by exact_mod_cast after
    have numbers := Int.mul_le_mul_of_nonneg_right after (Int.natCast_nonneg loop.notes.length)
    refine iff_of_false ?_ ?_
    · unfold Instance.number
      rw [add_mul, one_mul] at numbers
      omega
    · have later := high.trans_le (mul_le_mul_of_nonneg_right turns h.length_pos.le)
      exact (later.trans_le begins).not_ge

-- ========================================================== the listing

/-- The instances of one repetition. -/
def instancesOf (loop : Loop ℚ) (repetition : ℤ) : List loop.Instance :=
  (List.finRange loop.notes.length).map (⟨repetition, ·⟩)

/-- The instances of some repetitions, the first one given. -/
def instancesOver (loop : Loop ℚ) : ℕ → ℤ → List loop.Instance
  | 0, _ => []
  | count + 1, repetition =>
    loop.instancesOf repetition ++ loop.instancesOver count (repetition + 1)

theorem mem_instancesOf {i : loop.Instance} {r : ℤ} :
    i ∈ loop.instancesOf r ↔ i.repetition = r := by
  unfold instancesOf
  constructor
  · intro h
    obtain ⟨place, -, rfl⟩ := List.mem_map.mp h
    rfl
  · rintro rfl
    exact List.mem_map_of_mem (List.mem_finRange i.place)

/-- The instances of so many repetitions in a row. -/
theorem mem_instancesOver {i : loop.Instance} {count : ℕ} {r : ℤ} :
    i ∈ loop.instancesOver count r ↔ r ≤ i.repetition ∧ i.repetition < r + count := by
  induction count generalizing r with
  | zero =>
      unfold instancesOver
      simp only [List.not_mem_nil, false_iff]
      omega
  | succ count ih =>
      unfold instancesOver
      rw [List.mem_append, mem_instancesOf, ih]
      omega

/-- They are listed in the order of their numbers. -/
theorem increasing_instancesOver (count : ℕ) (r : ℤ) :
    (loop.instancesOver count r).Pairwise fun i j => i.number < j.number := by
  induction count generalizing r with
  | zero => exact .nil
  | succ count ih =>
      refine List.pairwise_append.mpr ⟨?_, ih (r + 1), ?_⟩
      · unfold instancesOf
        refine List.pairwise_map.mpr ((List.pairwise_lt_finRange _).imp fun {p q} lt => ?_)
        have := Fin.lt_def.mp lt
        unfold Instance.number
        dsimp only
        omega
      · intro i hi j hj
        refine Instance.number_lt_of_repetition_lt ?_
        rw [mem_instancesOf.mp hi]
        have := (mem_instancesOver.mp hj).1
        omega

/-- The instances in `[start, stop)` of some repetitions. -/
def instancesWithin (loop : Loop ℚ) (start stop : ℚ) (count : ℕ) (repetition : ℤ) :
    List loop.Instance :=
  (loop.instancesOver count repetition).filter fun i => start ≤ i.beat ∧ i.beat < stop

/-- One repetition of the notes, read off its instances. -/
theorem instancesIn_eq (start stop : ℚ) (r : ℤ) :
    loop.instancesIn start stop (r : ℚ)
      = ((loop.instancesOf r).filter fun i => start ≤ i.beat ∧ i.beat < stop).map
          fun i => (i.beat, i.note) := by
  have notes : loop.notes = (List.finRange loop.notes.length).map loop.notes.get :=
    (List.map_get_finRange loop.notes).symm
  unfold instancesIn instancesOf
  conv_lhs => rw [notes]
  rw [List.filterMap_map, List.filter_map, List.map_map, ← List.filterMap_eq_map,
    List.filterMap_filter]
  refine List.filterMap_congr fun place _ => ?_
  let i : loop.Instance := ⟨r, place⟩
  by_cases within : start ≤ i.beat ∧ i.beat < stop
  · exact (if_pos within).trans (if_pos (decide_eq_true within)).symm
  · exact (if_neg within).trans (if_neg (mt of_decide_eq_true within)).symm

/-- Looking at repetitions only as long as they begin before the end of the
interval comes to an end, and misses nothing of it. -/
theorem WellFormed.instancesFrom_eq (h : loop.WellFormed) (start stop : ℚ)
    (found : Array (ℚ × Note ℚ)) (count : ℕ) (r : ℤ)
    (enough : stop ≤ (r + count : ℤ) * loop.length) :
    (loop.instancesFrom start stop found (r : ℚ)).map Array.toList
      = some (found.toList
        ++ (loop.instancesWithin start stop count r).map fun i => (i.beat, i.note)) := by
  induction count generalizing r found with
  | zero =>
      rw [Int.natCast_zero, add_zero] at enough
      rw [instancesFrom, if_neg enough.not_gt]
      exact congrArg some (List.append_nil _).symm
  | succ count ih =>
      rw [instancesFrom]
      by_cases begins : (r : ℚ) * loop.length < stop
      · have next : (r : ℚ) + Scalar.one = ((r + 1 : ℤ) : ℚ) := by
          rw [Exact.one_eq, Int.cast_add, Int.cast_one]
        have later : stop ≤ (r + 1 + count : ℤ) * loop.length := by
          rwa [Nat.cast_succ, add_comm (count : ℤ), ← add_assoc] at enough
        rw [if_pos begins, next, ih _ _ later, Array.toList_appendList, instancesIn_eq]
        unfold instancesWithin
        rw [instancesOver, List.filter_append, List.map_append, List.append_assoc]
      · have beyond : loop.instancesWithin start stop (count + 1) r = [] := by
          refine List.filter_eq_nil_iff.mpr fun i hi within => ?_
          have turns : (r : ℚ) ≤ i.repetition := by exact_mod_cast (mem_instancesOver.mp hi).1
          have ends : i.beat < stop := (of_decide_eq_true within).2
          have := mul_le_mul_of_nonneg_right turns h.length_pos.le
          exact begins (this.trans_lt ((h.beat_mem i).1.trans_lt ends))
        rw [if_neg begins, beyond, List.map_nil, List.append_nil]
        rfl

/-- How many repetitions may begin from the one at `start` until `stop`. -/
def repetitionsUntil (loop : Loop ℚ) (start stop : ℚ) : ℕ :=
  (⌈stop / loop.length⌉ - ⌊start / loop.length⌋).toNat

/-- The repetitions that are gone through reach the end of the interval. -/
theorem ceil_le_repetitionsUntil (start stop : ℚ) :
    ⌈stop / loop.length⌉ ≤ ⌊start / loop.length⌋ + loop.repetitionsUntil start stop := by
  unfold repetitionsUntil
  omega

/-- The instances in `[start, stop)`. -/
def drawn (loop : Loop ℚ) (start stop : ℚ) : List loop.Instance :=
  loop.instancesWithin start stop (loop.repetitionsUntil start stop) ⌊start / loop.length⌋

/-- What falls in an interval belongs to the repetitions that are looked at. -/
theorem WellFormed.mem_drawn (h : loop.WellFormed) {start stop : ℚ} {i : loop.Instance} :
    i ∈ loop.drawn start stop ↔ start ≤ i.beat ∧ i.beat < stop := by
  unfold drawn instancesWithin
  rw [List.mem_filter, mem_instancesOver, decide_eq_true_eq, and_iff_right_iff_imp]
  rintro ⟨low, high⟩
  obtain ⟨begins, ends⟩ := h.beat_mem i
  have first : ⌊start / loop.length⌋ ≤ i.repetition := by
    refine Int.lt_add_one_iff.mp (Int.floor_lt.mpr ?_)
    rw [div_lt_iff₀ h.length_pos, Int.cast_add, Int.cast_one]
    exact low.trans_lt ends
  have last : i.repetition < ⌈stop / loop.length⌉ := by
    refine Int.lt_ceil.mpr ?_
    rw [lt_div_iff₀ h.length_pos]
    exact begins.trans_lt high
  exact ⟨first, last.trans_le (ceil_le_repetitionsUntil start stop)⟩

theorem nodup_drawn (loop : Loop ℚ) (start stop : ℚ) : (loop.drawn start stop).Nodup := by
  refine List.Pairwise.imp ?_ ((increasing_instancesOver _ _).filter _)
  rintro i j lt rfl
  exact lt.false

/-- The listing comes to an end with the instances in the range. -/
theorem WellFormed.occurrences?_eq (h : loop.WellFormed) {start stop : ℚ} (lt : start < stop) :
    loop.occurrences? start stop
      = some ((loop.drawn start stop).map fun i => (i.beat, i.note)) := by
  have enough : stop ≤ (⌊start / loop.length⌋ + loop.repetitionsUntil start stop : ℤ)
      * loop.length := by
    rw [← div_le_iff₀ h.length_pos]
    exact (Int.le_ceil _).trans (Int.cast_le.mpr (ceil_le_repetitionsUntil start stop))
  unfold occurrences?
  rw [if_pos ⟨rfl, rfl, lt.not_ge, h.sounds⟩, Exact.roundDown_eq,
    h.instancesFrom_eq start stop #[] _ _ enough]
  exact congrArg some (List.nil_append _)

/-- Over the rationals the listing always ends, and is what was drawn. -/
theorem WellFormed.occurrences_eq (h : loop.WellFormed) {start stop : ℚ} (lt : start < stop) :
    loop.occurrences start stop = (loop.drawn start stop).map fun i => (i.beat, i.note) := by
  unfold occurrences
  rw [h.occurrences?_eq lt]
  rfl

/-- The listing has as many entries as instances fall in the interval. -/
theorem WellFormed.length_occurrences (h : loop.WellFormed) {start stop : ℚ} (lt : start < stop) :
    (loop.occurrences start stop).length
      = {i : loop.Instance | start ≤ i.beat ∧ i.beat < stop}.ncard := by
  have members : {i : loop.Instance | start ≤ i.beat ∧ i.beat < stop}
      = ((loop.drawn start stop).toFinset : Set loop.Instance) := by
    ext i
    rw [List.coe_toFinset, Set.mem_ofPred_eq, Set.mem_ofPred_eq, h.mem_drawn]
  rw [h.occurrences_eq lt, List.length_map, members, Set.ncard_coe_finset,
    List.toFinset_card_of_nodup (nodup_drawn loop start stop)]

end Metrograph.Rhythm.Loop
