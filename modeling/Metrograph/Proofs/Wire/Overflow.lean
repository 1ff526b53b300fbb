/-
Where the engine's running number of notes fits its 64 bits.

# The number itself

Without a bound the number never decreases (`runningNumber_mono`), although
both the turns and the time within a turn are rounded: more turns count for
more notes than any time within one, and in the same turn the same product is
subtracted, so that a later beat comes at a later time. Bisection finds no
fewer notes by a later time whatever the order of the notes
(`partitionPoint_mono`).

# The bits it is held in

The engine holds the turns in 64 bits, at the end of the range if they do not
fit, and computes the number modulo the range. The turns are the beat over the
length of the loop, up to rounding, and the number is as many times the notes,
up to those of one turn. So the number fits as long as the beat comes before
`2 ^ 63` notes would have passed, with room for what is rounded
(`fits_of_near`), and it does not from a little later on (`not_fits_of_far`).
-/
import Metrograph.Proofs.Rhythm.Repetitions
import Metrograph.Proofs.Scalar.Units
import Metrograph.Proofs.Wire.NoteIndex

namespace Metrograph

-- ============================================================ differences

namespace Binary64

variable {x y : Float} {p q : ℚ}

/-- A finite number less another one, where infinities stay what they are. -/
def minus (p q : ℚ) : ℚ := if |q| < limit then nearest (p - q) else -q

/-- A difference is computed as `minus` says, also from an infinity. -/
theorem HasValue.minus (hx : HasValue x p) (hy : HasValue y q) (finite : |p| < limit) :
    HasValue (x - y) (minus p q) := by
  unfold Binary64.minus
  split_ifs with inside
  · exact hx.sub hy finite inside
  · exact (hy.sub_of_infinite inside hx finite).2

/-- From more there is no less left. -/
theorem minus_mono {p' : ℚ} (le : p ≤ p') : minus p q ≤ minus p' q := by
  unfold minus
  split_ifs
  · exact nearest_mono (sub_le_sub_right le q)
  · exact le_rfl

/-- Whatever is no more than a number is defined. -/
theorem defined_of_le (le : x ≤ y) : x.isNaN = false := by
  have le : decide (x.toModel ≤ y.toModel) = true := le
  rw [decide_eq_true_iff] at le
  have le : (x.toModel.unpack.compare y.toModel.unpack).any (·.isLE) = true := le
  show x.toModel.unpack.isNaN = false
  revert le
  cases x.toModel.unpack with
  | notANumber => exact nofun
  | infinity | zero | finite => exact fun _ => rfl

/-- A comparison of floats and one of their values are put together. -/
theorem HasValue.le_trans {z : Float} (hy : HasValue y p) (hz : HasValue z q) (le : x ≤ y)
    (further : p ≤ q) : x ≤ z := by
  have hx : HasValue x (Scalar.value x) := ⟨defined_of_le le, rfl⟩
  exact (hx.le_iff hz).mpr (((hx.le_iff hy).mp le).trans further)

end Binary64

namespace Wire.Rhythm

open Binary64
open Metrograph.Rhythm (Loop compile compile_eq_ok hasValue_length hasValue_counter maxNotes)

-- ==================================================== the running number

section

variable {α : Type} [Scalar α] (r : Rhythm α) (beat : α)

/-- How often the loop has been gone through by a beat. -/
def turns : α := (beat - r.start) / r.length

/-- The time of a beat in its turn. -/
def inLoop : α := beat - r.start - Scalar.roundDown (r.turns beat) * r.length

/-- How many notes of its turn have started by a beat. -/
def passed : ℕ := partitionPoint (r.startsBy (r.inLoop beat)) r.notes.size

/-- The notes of all turns before that of a beat. -/
def before : ℤ := Scalar.floor (r.turns beat) * r.notes.size

/-- The running number of the last note by a beat, whatever bits it takes. -/
def runningNumber : ℤ := r.before beat + (r.passed beat - 1)

/-- A whole number that 64 bits can hold. -/
def FitsInt64 (n : ℤ) : Prop := Word.lowest 63 ≤ n ∧ n ≤ Word.highest 63

/-- Every whole number on the way to the running number can be held. -/
structure Fits : Prop where
  turns : FitsInt64 (Scalar.floor (r.turns beat))
  before : FitsInt64 (r.before beat)
  number : FitsInt64 (r.runningNumber beat)

end

theorem passed_le (r : Rhythm Float) (beat : Float) : r.passed beat ≤ r.notes.size :=
  partitionPoint_le _ _

/-- A rhythm that can loop. -/
structure Loops (r : Rhythm Float) (l : ℚ) : Prop where
  notes_pos : 0 < r.notes.size
  notes_le : r.notes.size ≤ maxNotes
  start : HasValue r.start 0
  length : HasValue r.length l
  positive : 0 < l
  short : l < limit

variable {r : Rhythm Float} {l : ℚ}

/-- A length that is finite is inside the range. -/
theorem Loops.length_inside (loops : r.Loops l) : |l| < limit := by
  rw [abs_of_pos loops.positive]
  exact loops.short

namespace Loops

variable (loops : r.Loops l) {beat : Float} {p : ℚ} (hp : HasValue beat p) (finite : |p| < limit)

include loops hp finite

/-- Loops begin at beat zero, so nothing is subtracted. -/
theorem hasValue_offset : HasValue (beat - r.start) p := by
  have offset := hp.sub loops.start finite abs_zero_lt_limit
  rwa [sub_zero, hp.nearest_eq] at offset

/-- The turns are the quotient, rounded. -/
theorem hasValue_turns : HasValue (r.turns beat) (nearest (p / l)) :=
  (loops.hasValue_offset hp finite).div loops.length finite loops.length_inside loops.positive.ne'

/-- The turn of a beat is the floor of the rounded quotient. -/
theorem floor_turns : Scalar.floor (r.turns beat) = ⌊nearest (p / l)⌋ :=
  (loops.hasValue_turns hp finite).floor_eq

/-- What is left of a beat in its turn, rounded twice. -/
theorem hasValue_inLoop :
    HasValue (r.inLoop beat) (minus p (times (⌊nearest (p / l)⌋ : ℤ) l)) := by
  have offset := loops.hasValue_offset hp finite
  have turns := hasValue_counter offset loops.length finite loops.short loops.positive
  exact offset.minus (turns.times loops.length loops.positive loops.short) finite

/-- The running number as it is computed: what is held of the turns, times the
notes, wrapped. -/
theorem noteIndexAt_eq_some : r.noteIndexAt beat
    = some (Scalar.overflow Float (Scalar.heldFloor (r.turns beat) * r.notes.size
      + (r.passed beat - 1))) := by
  have bounded : r.length.isFinite = true := loops.length.isFinite_iff.mpr loops.length_inside
  have can_loop : ¬ (r.notes.size = 0 ∨ ¬ Scalar.isFinite r.length = true
      ∨ r.length ≤ Scalar.zero) := by
    rintro (none | endless | short)
    · exact loops.notes_pos.ne' none
    · exact endless bounded
    · exact loops.positive.not_ge ((loops.length.le_iff hasValue_zero).mp short)
  unfold noteIndexAt
  rw [if_neg can_loop]
  exact if_pos (hp.isFinite_iff.mpr finite)

end Loops

-- ================================================================ order

/-- A note that has started stays started. -/
theorem startsBy_mono (r : Rhythm Float) {x y : Float} {p q : ℚ} (hx : HasValue x p)
    (hy : HasValue y q) (le : p ≤ q) (i : ℕ) (starts : r.startsBy x i = true) :
    r.startsBy y i = true := by
  unfold startsBy at starts ⊢
  cases note : r.notes[i]? with
  | none =>
    rw [note] at starts
    exact absurd starts Bool.false_ne_true
  | some n =>
    rw [note] at starts
    exact decide_eq_true (hx.le_trans hy (of_decide_eq_true starts) le)

/-- The running number never decreases. -/
theorem Loops.runningNumber_mono (loops : r.Loops l) {a b : Float} {p q : ℚ} (ha : HasValue a p)
    (hb : HasValue b q) (fa : |p| < limit) (fb : |q| < limit) (le : p ≤ q) :
    r.runningNumber a ≤ r.runningNumber b := by
  have floors := Int.floor_mono (nearest_mono (div_le_div_of_nonneg_right le loops.positive.le))
  have first := loops.hasValue_inLoop ha fa
  have last := loops.hasValue_inLoop hb fb
  unfold runningNumber before
  rw [loops.floor_turns ha fa, loops.floor_turns hb fb]
  rcases floors.eq_or_lt with same | more
  · -- in one turn a later time is passed by no fewer notes
    rw [same] at first
    have notes : r.passed a ≤ r.passed b :=
      partitionPoint_mono (r.startsBy_mono first last (minus_mono le)) r.notes.size
    rw [same]
    omega
  · -- one turn more counts for all the notes of one
    have turn := mul_le_mul_of_nonneg_right (Int.add_one_le_of_lt more)
      (Int.natCast_nonneg r.notes.size)
    have notes := r.passed_le a
    rw [add_mul, one_mul] at turn
    omega

-- ================================================================ range

/-- The bounds of 64 bits as powers of two. -/
theorem fitsInt64_iff {n : ℤ} : FitsInt64 n ↔ -2 ^ 63 ≤ n ∧ n < 2 ^ 63 := by
  have lowest : Word.lowest 63 = -2 ^ 63 := by decide
  have highest : Word.highest 63 = 2 ^ 63 - 1 := by decide
  unfold FitsInt64
  rw [lowest, highest, Int.le_sub_one_iff]

/-- What fits is computed as it is. -/
theorem Loops.noteIndexAt_of_fits (loops : r.Loops l) {beat : Float} {p : ℚ}
    (hp : HasValue beat p) (finite : |p| < limit) (fits : r.Fits beat) :
    r.noteIndexAt beat = some (r.runningNumber beat) := by
  obtain ⟨low, high⟩ := fits.turns
  obtain ⟨least, most⟩ := fitsInt64_iff.mp fits.number
  have turns : Scalar.heldFloor (r.turns beat) = Scalar.floor (r.turns beat) := by
    show max _ (min _ _) = _
    rw [min_eq_right high, max_eq_right low]
  have number : Scalar.overflow Float (r.runningNumber beat) = r.runningNumber beat := by
    have half : ((Word.count 64 : ℕ) : ℤ) = 2 * 2 ^ 63 := by decide
    exact Int.bmod_eq_of_le (by omega) (by omega)
  rw [loops.noteIndexAt_eq_some hp finite, turns]
  exact congrArg some number

/-- A number that is not much larger than 64 bits can hold moves by no more than
`2 ^ 11` when it is divided by the notes of a loop, rounded and multiplied again. -/
theorem abs_mul_nearest_div_sub_le {n : ℕ} (pos : 0 < n) (few : n ≤ maxNotes) {c : ℚ}
    (nonneg : 0 ≤ c) (le : c ≤ 2 ^ 63 + 2 ^ 12) : |n * nearest (c / n) - c| ≤ 2 ^ 11 := by
  have some_notes : (1 : ℚ) ≤ n := by exact_mod_cast pos
  have notes : (0 : ℚ) < n := one_pos.trans_le some_notes
  have quotient_nonneg : 0 ≤ c / n := div_nonneg nonneg notes.le
  have inside : |nearest (c / n)| < limit := by
    have small : c / n ≤ 2 ^ (64 : ℤ) :=
      (div_le_self nonneg some_notes).trans (le.trans (by norm_num))
    rw [abs_of_nonneg (nearest_nonneg quotient_nonneg)]
    exact (nearest_le_two_zpow (by norm_num) (by norm_num) small).trans_lt
      (two_zpow_lt_limit_iff.mpr (by norm_num))
  have error := abs_rounded_sub_le_size (c / n)
  rw [← nearest_eq_rounded_of_lt inside, abs_of_nonneg quotient_nonneg] at error
  have tiny : (2 : ℚ) ^ (-1075 : ℤ) ≤ 2 ^ (-10 : ℤ) :=
    zpow_le_zpow_right₀ one_le_two (by norm_num)
  have few : (n : ℚ) ≤ 2 ^ 10 := by exact_mod_cast few
  have scaled : n * nearest (c / n) - c = n * (nearest (c / n) - c / n) := by
    field_simp
  rw [scaled, abs_mul, abs_of_pos notes]
  calc n * |nearest (c / n) - c / n|
      ≤ n * (c / n * 2 ^ (-53 : ℤ) + 2 ^ (-10 : ℤ)) :=
        mul_le_mul_of_nonneg_left (error.trans (add_le_add_right tiny _)) notes.le
    _ = c * 2 ^ (-53 : ℤ) + n * 2 ^ (-10 : ℤ) := by field_simp
    _ ≤ (2 ^ 63 + 2 ^ 12) * 2 ^ (-53 : ℤ) + 2 ^ 10 * 2 ^ (-10 : ℤ) :=
        add_le_add (mul_le_mul_of_nonneg_right le (two_zpow_pos _).le)
          (mul_le_mul_of_nonneg_right few (two_zpow_pos _).le)
    _ ≤ 2 ^ 11 := by norm_num

variable (r) in
/-- Fewer notes lie between beat zero and a beat than 64 bits can number, also if
the turns are rounded. -/
def Near (beat : Float) : Prop :=
  |Scalar.value beat| * r.notes.size ≤ (2 ^ 63 - 2 ^ 12) * Scalar.value r.length

variable (r) in
/-- More notes lie between beat zero and a beat than 64 bits can number, also if
the turns are rounded. -/
def Far (beat : Float) : Prop :=
  (2 ^ 63 + 2 ^ 12) * Scalar.value r.length ≤ |Scalar.value beat| * r.notes.size

section Range

variable (loops : r.Loops l) {beat : Float}

include loops

/-- Near to beat zero the rounded turns have few enough notes as well. -/
theorem Loops.turns_of_near (near : r.Near beat) :
    r.notes.size * |nearest (Scalar.value beat / l)| ≤ 2 ^ 63 - 2 ^ 11 := by
  have notes : (0 : ℚ) < r.notes.size := by exact_mod_cast loops.notes_pos
  unfold Near at near
  rw [loops.length.value_eq] at near
  have quotient : |Scalar.value beat / l| ≤ (2 ^ 63 - 2 ^ 12) / r.notes.size := by
    rw [abs_div, abs_of_pos loops.positive, div_le_div_iff₀ loops.positive notes]
    exact near
  have error := abs_le.mp (abs_mul_nearest_div_sub_le loops.notes_pos loops.notes_le
    (c := 2 ^ 63 - 2 ^ 12) (by norm_num) (by norm_num))
  rw [abs_nearest]
  have bound := mul_le_mul_of_nonneg_left (nearest_mono quotient) notes.le
  linarith [error.2]

/-- Far from it the rounded turns have too many notes as well. -/
theorem Loops.turns_of_far (far : r.Far beat) :
    2 ^ 63 + 2 ^ 11 ≤ r.notes.size * |nearest (Scalar.value beat / l)| := by
  have notes : (0 : ℚ) < r.notes.size := by exact_mod_cast loops.notes_pos
  unfold Far at far
  rw [loops.length.value_eq] at far
  have quotient : (2 ^ 63 + 2 ^ 12) / r.notes.size ≤ |Scalar.value beat / l| := by
    rw [abs_div, abs_of_pos loops.positive, div_le_div_iff₀ notes loops.positive]
    exact far
  have error := abs_le.mp (abs_mul_nearest_div_sub_le loops.notes_pos loops.notes_le
    (c := 2 ^ 63 + 2 ^ 12) (by norm_num) (by norm_num))
  rw [abs_nearest]
  have bound := mul_le_mul_of_nonneg_left (nearest_mono quotient) notes.le
  linarith [error.1]

/-- The notes of the turns before a beat are as many as the turns, up to those of
one turn. -/
theorem Loops.before_bounds (finite : beat.isFinite = true) :
    (r.before beat : ℚ) ≤ r.notes.size * nearest (Scalar.value beat / l)
      ∧ r.notes.size * nearest (Scalar.value beat / l) < r.before beat + r.notes.size := by
  have notes : (0 : ℚ) < r.notes.size := by exact_mod_cast loops.notes_pos
  have hp := hasValue_of_isFinite finite
  unfold before
  rw [loops.floor_turns hp (hp.isFinite_iff.mp finite)]
  generalize nearest (Scalar.value beat / l) = t
  have low := mul_le_mul_of_nonneg_left (Int.floor_le t) notes.le
  have high := mul_lt_mul_of_pos_left (Int.lt_floor_add_one t) notes
  push_cast
  constructor <;> linarith

/-- As long as fewer notes than that have passed, their number fits. -/
theorem Loops.fits_of_near (finite : beat.isFinite = true) (near : r.Near beat) : r.Fits beat := by
  have hp := hasValue_of_isFinite finite
  have floor := loops.floor_turns hp (hp.isFinite_iff.mp finite)
  have some_notes : (1 : ℚ) ≤ r.notes.size := by exact_mod_cast loops.notes_pos
  have few : (r.notes.size : ℚ) ≤ 2 ^ 10 := by exact_mod_cast loops.notes_le
  have passed := r.passed_le beat
  obtain ⟨low, high⟩ := loops.before_bounds finite
  have bound := loops.turns_of_near near
  generalize nearest (Scalar.value beat / l) = t at floor low high bound
  obtain ⟨least, most⟩ := abs_le.mp ((le_mul_of_one_le_left (abs_nonneg t) some_notes).trans bound)
  rw [← abs_of_pos (one_pos.trans_le some_notes), ← abs_mul] at bound
  obtain ⟨above, below⟩ := abs_le.mp bound
  have below : r.before beat ≤ 2 ^ 63 - 2 ^ 11 := by
    have cast : (r.before beat : ℚ) ≤ 2 ^ 63 - 2 ^ 11 := low.trans below
    exact_mod_cast cast
  have above : -2 ^ 63 + 2 ^ 10 ≤ r.before beat := by
    have cast : (-2 ^ 63 + 2 ^ 10 : ℚ) ≤ r.before beat := by linarith
    exact_mod_cast cast
  have notes : r.notes.size ≤ 2 ^ 10 := loops.notes_le
  constructor
  case turns =>
    rw [floor, fitsInt64_iff]
    refine ⟨Int.le_floor.mpr ?_, Int.floor_lt.mpr ?_⟩ <;> push_cast <;> linarith
  case before =>
    rw [fitsInt64_iff]
    omega
  case number =>
    unfold runningNumber
    rw [fitsInt64_iff]
    omega

/-- Once more notes than that have passed, their number does not fit. -/
theorem Loops.not_fits_of_far (finite : beat.isFinite = true) (far : r.Far beat) :
    ¬ FitsInt64 (r.runningNumber beat) := by
  have few : (r.notes.size : ℚ) ≤ 2 ^ 10 := by exact_mod_cast loops.notes_le
  have notes : r.notes.size ≤ 2 ^ 10 := loops.notes_le
  have passed := r.passed_le beat
  obtain ⟨low, high⟩ := loops.before_bounds finite
  have bound := loops.turns_of_far far
  generalize nearest (Scalar.value beat / l) = t at low high bound
  have nonneg : (0 : ℚ) ≤ r.notes.size := Nat.cast_nonneg _
  rw [← abs_of_nonneg nonneg, ← abs_mul] at bound
  unfold runningNumber
  rw [fitsInt64_iff]
  rcases le_abs.mp bound with after | ahead
  · have many : 2 ^ 63 + 2 ^ 10 ≤ r.before beat := by
      have cast : (2 ^ 63 + 2 ^ 10 : ℚ) ≤ r.before beat := by linarith
      exact_mod_cast cast
    omega
  · have many : r.before beat ≤ -(2 ^ 63 + 2 ^ 11) := by
      have cast : (r.before beat : ℚ) ≤ -(2 ^ 63 + 2 ^ 11) := by linarith
      exact_mod_cast cast
    omega

end Range

-- ======================================================== compiled loops

section Compiled

variable {text : String} {loop : Loop Float}

/-- A compiled loop of finite length can be gone through again and again. -/
theorem loops_ofLoop (compiled : compile text = .ok loop) (finite : loop.length.isFinite = true) :
    (ofLoop loop).Loops (Scalar.value loop.length) := by
  obtain ⟨-, -, -, -, -, sounds, few, -⟩ := compile_eq_ok compiled
  obtain ⟨l, length, positive⟩ := hasValue_length compiled
  have short := length.isFinite_iff.mp finite
  rw [abs_of_pos positive] at short
  rw [length.value_eq]
  constructor
  case notes_pos =>
    rw [size_ofLoop]
    exact List.length_pos_iff.mpr sounds
  case notes_le =>
    rw [size_ofLoop]
    exact few
  case start => exact hasValue_zero
  case length =>
    have difference := length.sub hasValue_zero (by rwa [abs_of_pos positive]) abs_zero_lt_limit
    rwa [sub_zero, length.nearest_eq] at difference
  case positive => exact positive
  case short => exact short

/-- Nothing is numbered in a loop that does not end. -/
theorem noteIndexAt_of_endless (compiled : compile text = .ok loop)
    (endless : loop.length.isFinite = false) (beat : Float) :
    (ofLoop loop).noteIndexAt beat = none := by
  obtain ⟨l, length, -⟩ := hasValue_length compiled
  have infinite : ¬ |l| < limit := fun inside => by
    rw [length.isFinite_iff.mpr inside] at endless
    exact absurd endless Bool.false_ne_true.symm
  have difference := (length.sub_of_infinite infinite hasValue_zero abs_zero_lt_limit).1
  unfold noteIndexAt
  refine if_pos (Or.inr (Or.inl fun finite => infinite ?_))
  exact difference.isFinite_iff.mp finite

/-- In a compiled loop the number at a beat fits 64 bits, with all that leads to
it, for beats before about `2 ^ 63` notes, and it does not for later ones. Where
it fits it is the number that the engine goes by, and there it is no smaller at
a later beat. A loop of infinite length has no numbers. -/
theorem noteIndexAt_fits (compiled : compile text = .ok loop) :
    (loop.length.isFinite = false → ∀ beat, (ofLoop loop).noteIndexAt beat = none)
      ∧ (loop.length.isFinite = true → ∀ beat : Float, beat.isFinite = true →
        ((ofLoop loop).Near beat → (ofLoop loop).Fits beat)
          ∧ ((ofLoop loop).Far beat → ¬ (ofLoop loop).Fits beat)
          ∧ ((ofLoop loop).Fits beat →
            (ofLoop loop).noteIndexAt beat = some ((ofLoop loop).runningNumber beat)))
      ∧ (loop.length.isFinite = true → ∀ a b : Float, a.isFinite = true → b.isFinite = true →
        a ≤ b → (ofLoop loop).runningNumber a ≤ (ofLoop loop).runningNumber b
          ∧ ((ofLoop loop).Fits a → (ofLoop loop).Fits b → ∃ m n,
            (ofLoop loop).noteIndexAt a = some m ∧ (ofLoop loop).noteIndexAt b = some n
              ∧ m ≤ n)) := by
  refine ⟨noteIndexAt_of_endless compiled, fun finite beat hb => ?_, fun finite a b ha hb le => ?_⟩
  · have loops := loops_ofLoop compiled finite
    have value := hasValue_of_isFinite hb
    refine ⟨loops.fits_of_near hb, fun far fits => loops.not_fits_of_far hb far fits.number, ?_⟩
    exact loops.noteIndexAt_of_fits value (value.isFinite_iff.mp hb)
  · have loops := loops_ofLoop compiled finite
    have first := hasValue_of_isFinite ha
    have last := hasValue_of_isFinite hb
    have fa := first.isFinite_iff.mp ha
    have fb := last.isFinite_iff.mp hb
    have numbers := loops.runningNumber_mono first last fa fb ((first.le_iff last).mp le)
    refine ⟨numbers, fun fits fits' => ⟨_, _, loops.noteIndexAt_of_fits first fa fits,
      loops.noteIndexAt_of_fits last fb fits', numbers⟩⟩

end Compiled

/-- One note in the middle of a loop of some beats. -/
def halfway (length time : Float) (text : String) : Loop Float :=
  ⟨[⟨time, .subdivision, false, none⟩], length, text⟩

/-- The texts of the two loops compile to them. -/
theorem compile_halfway :
    compile "[~1 1]" = .ok (halfway 1 0.5 "[~1 1]")
      ∧ compile "[~1 1]:3" = .ok (halfway 3 1.5 "[~1 1]:3") :=
  ⟨eq_ok_of_toOption (by decide +kernel),
    eq_ok_of_toOption (by decide +kernel)⟩

/-- A billion billion beats before and after beat zero. -/
theorem noteIndexAt_fits_halfway :
    (ofLoop (halfway 1 0.5 "[~1 1]")).Fits (-1e18)
      ∧ (ofLoop (halfway 1 0.5 "[~1 1]")).Fits 1e18
      ∧ ∃ m n, (ofLoop (halfway 1 0.5 "[~1 1]")).noteIndexAt (-1e18) = some m
        ∧ (ofLoop (halfway 1 0.5 "[~1 1]")).noteIndexAt 1e18 = some n ∧ m ≤ n := by
  obtain ⟨-, number, order⟩ := noteIndexAt_fits compile_halfway.1
  have finite : (halfway 1 0.5 "[~1 1]").length.isFinite = true := by decide +kernel
  have first : (ofLoop (halfway 1 0.5 "[~1 1]")).Fits (-1e18) := by
    refine (number finite (-1e18) (by decide +kernel)).1 ?_
    unfold Near
    decide +kernel
  have last : (ofLoop (halfway 1 0.5 "[~1 1]")).Fits 1e18 := by
    refine (number finite 1e18 (by decide +kernel)).1 ?_
    unfold Near
    decide +kernel
  exact ⟨first, last, (order finite (-1e18) 1e18 (by decide +kernel) (by decide +kernel)
    (by decide +kernel)).2 first last⟩

/-- With one note a beat, at beat `2 ^ 63` the turns do not fit although the number
would, which comes out too small. With one note in three beats the number at a
later beat is smaller, and with two notes a beat it starts again from below. -/
theorem noteIndexAt_cut_off :
    compile "[~1 1]" = .ok (halfway 1 0.5 "[~1 1]")
      ∧ (ofLoop (halfway 1 0.5 "[~1 1]")).runningNumber 9223372036854775808 = 2 ^ 63 - 1
      ∧ (ofLoop (halfway 1 0.5 "[~1 1]")).noteIndexAt 9223372036854775808 = some (2 ^ 63 - 2)
      ∧ compile "[~1 1]:3" = .ok (halfway 3 1.5 "[~1 1]:3")
      ∧ (27670116110564347904 : Float) < 27670116110564352000
      ∧ (ofLoop (halfway 3 1.5 "[~1 1]:3")).noteIndexAt 27670116110564347904 = some (2 ^ 63 - 1)
      ∧ (ofLoop (halfway 3 1.5 "[~1 1]:3")).noteIndexAt 27670116110564352000 = some (2 ^ 63 - 2)
      ∧ compile "2:1" = .ok (Loop.standard : Loop Float)
      ∧ (ofLoop (Loop.standard : Loop Float)).noteIndexAt 4611686018427387904
        = some (-2 ^ 63) := by
  refine ⟨compile_halfway.1, ?_, ?_, compile_halfway.2, ?_, ?_, ?_, ?_, ?_⟩
  case refine_6 => exact eq_ok_of_toOption (by decide +kernel)
  all_goals decide +kernel

end Wire.Rhythm

end Metrograph
