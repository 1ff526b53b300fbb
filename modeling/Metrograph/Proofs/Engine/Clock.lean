/-
The clock of a made-up signal, in whole nanoseconds.

# What a poll reads off the clock

A period of the signal is 640000000 / 441 nanoseconds. The period, the
seconds since the last poll and their quotient are all rounded to
binary64, but the quotient of whole nanoseconds lies on a grid that is
coarser than these errors together (`quotient_error`). So what comes out
is exact: a poll makes as many samples as whole periods fit
(`due_eq`), and sets the clock forward by their length to the nearest
nanosecond (`spanOf_error`).

# What is left behind

Only that last rounding stays: after a poll the clock is off by up to half
a nanosecond, and the next poll counts from there. What polls make is
described by the clock alone (`clock`), as long as they keep up with it
(`KeepsUp`): when a poll comes more than a second late the clock is set to
the time of the poll, whatever was left over.
-/
import Metrograph.Engine.Simulation
import Metrograph.Proofs.Scalar.Exact
import Metrograph.Proofs.Scalar.Rounding

namespace Metrograph.Engine.Simulation

open Binary64 hiding value

-- ============================================================== binary64

theorem second_eq : second = 1000000000 := rfl

theorem cast_second : ((second : ℕ) : ℚ) = 1000000000 := rfl

/-- Seconds from one sample to the next as binary64 holds them. -/
def heldPeriod : ℚ := 6692696262570359 / 4611686018427387904

/-- The period of a sample is held as the number nearest to it. -/
theorem hasValue_period : HasValue (period : Float) heldPeriod := by
  have held : Scalar.value (period : Float) = heldPeriod := by decide +kernel
  rw [← held]
  exact hasValue_of_isFinite (by decide +kernel)

variable {span count : ℕ}

/-- A span is held in seconds as the number nearest to it. -/
theorem hasValue_seconds (few : span ≤ second) :
    HasValue (seconds span) (nearest ((span : ℚ) / second)) := by
  have whole : HasValue (Scalar.ofNat second) (second : ℕ) := hasValue_count (by decide)
  have inside {n : ℕ} (le : n ≤ second) : |(n : ℚ)| < limit :=
    abs_intCast_lt_limit (abs_natCast_le (le.trans (by decide)))
  have nonzero : ((second : ℕ) : ℚ) ≠ 0 := by decide +kernel
  unfold seconds
  rcases few.lt_or_eq with less | rfl
  · rw [Nat.div_eq_of_lt less, Nat.mod_eq_of_lt less]
    have rest := (hasValue_count (few.trans (by decide))).div whole (inside few) (inside le_rfl)
      nonzero
    have sum := hasValue_zero.add_of_nonneg rest le_rfl
      (nearest_nonneg (div_nonneg (Nat.cast_nonneg _) (Nat.cast_nonneg _)))
    rwa [zero_add, rest.nearest_eq] at sum
  · rw [div_self nonzero, hasValue_one.nearest_eq]
    exact ⟨by decide +kernel, by decide +kernel⟩

/-- Rounding an exact number of the unit interval is off by half a place of one at
most. -/
theorem nearest_error {q : ℚ} (nonneg : 0 ≤ q) (le : q ≤ 1) :
    |nearest q - q| ≤ 1 / 9007199254740992 := by
  have inside : |nearest q| ≤ 1 := by
    rw [abs_of_nonneg (nearest_nonneg nonneg)]
    exact nearest_le kept_one one_le_limit le
  have half := abs_nearest_sub_le inside one_lt_limit
    (zpow_le_one_of_nonpos₀ one_le_two (by norm_num))
  rwa [one_mul, zpow_neg, ← one_div] at half

/-- What is computed for the number of periods in a span is nearer to it than the
grid of the spans is wide. -/
theorem quotient_error (few : span ≤ second) :
    ∃ q, HasValue ((seconds span : Float) / period) q
      ∧ |q - 441 * span / 640000000| ≤ 1 / 1000000000000 := by
  have le : (span : ℚ) ≤ 1000000000 := by exact_mod_cast few
  have nonneg : (0 : ℚ) ≤ span := Nat.cast_nonneg span
  have elapsed := hasValue_seconds few
  have share := nearest_error (q := (span : ℚ) / second)
    (by rw [cast_second]; positivity) (by rw [cast_second]; linarith)
  have s_nonneg : 0 ≤ nearest ((span : ℚ) / second) :=
    nearest_nonneg (div_nonneg nonneg (Nat.cast_nonneg _))
  rw [cast_second] at elapsed share s_nonneg
  generalize nearest ((span : ℚ) / 1000000000) = s at elapsed share s_nonneg
  obtain ⟨low, high⟩ := abs_le.mp share
  have held : heldPeriod ≠ 0 := by decide +kernel
  have small {q : ℚ} (le : |q| ≤ 2 ^ 10) : |q| < limit :=
    le.trans_lt (two_pow_lt_limit (by norm_num))
  have back : s / heldPeriod * heldPeriod = s := div_mul_cancel₀ s held
  have quotient := elapsed.div hasValue_period (small ?_) (small ?_) held
  · generalize s / heldPeriod = p at back quotient
    unfold heldPeriod at back
    have last : |nearest p - p| ≤ 2 ^ 10 * 2 ^ (-53 : ℤ) := by
      refine abs_nearest_sub_le ?_ (two_pow_lt_limit (by norm_num)) ?_
      · rw [abs_of_nonneg (nearest_nonneg (by linarith))]
        exact nearest_le_two_pow (by norm_num) (by linarith)
      · exact (zpow_le_one_of_nonpos₀ one_le_two (by norm_num)).trans (by norm_num)
    obtain ⟨down, up⟩ := abs_le.mp last
    refine ⟨_, quotient, abs_le.mpr ⟨?_, ?_⟩⟩
    · norm_num at down
      linarith
    · norm_num at up
      linarith
  · rw [abs_le]
    constructor <;> linarith
  · decide +kernel

/-- As many samples are due as whole periods fit. -/
theorem floor_quotient (few : span ≤ second) :
    Scalar.floor ((seconds span : Float) / period) = (441 * span / 640000000 : ℕ) := by
  have le : span ≤ 1000000000 := few
  -- a span of whole periods leaves no room for an error, but there are only two
  by_cases whole : span = 0 ∨ span = 640000000
  · rcases whole with rfl | rfl <;> decide +kernel
  · obtain ⟨q, quotient, error⟩ := quotient_error few
    obtain ⟨low, high⟩ := abs_le.mp error
    have parts := Nat.div_add_mod (441 * span) 640000000
    have rest := Nat.mod_lt (441 * span) (show 640000000 > 0 by norm_num)
    have some_rest : 1 ≤ 441 * span % 640000000 := by
      refine Nat.pos_of_ne_zero fun none_left => whole ?_
      obtain ⟨turns, rfl⟩ : 640000000 ∣ span :=
        Nat.Coprime.dvd_of_dvd_mul_left (by decide) (Nat.dvd_of_mod_eq_zero none_left)
      omega
    generalize 441 * span / 640000000 = n at parts ⊢
    generalize 441 * span % 640000000 = r at parts rest some_rest
    have parts : (640000000 * n + r : ℚ) = 441 * span := by exact_mod_cast parts
    have rest : (r + 1 : ℚ) ≤ 640000000 := by exact_mod_cast rest
    have some_rest : (1 : ℚ) ≤ r := by exact_mod_cast some_rest
    rw [quotient.floor_eq, Int.floor_eq_iff, Int.cast_natCast]
    constructor <;> linarith

/-- What is due is computed without error: the rounding is finer than a sample
over the span. -/
theorem due_eq (s : Simulation Float) {now : ℕ} (soon : now ≤ s.madeUpTo + second) :
    s.due now = 441 * (now - s.madeUpTo) / 640000000 := by
  have few : now - s.madeUpTo ≤ second := by omega
  have le : now - s.madeUpTo ≤ 1000000000 := few
  have largest : Word.largest 32 = 4294967295 := rfl
  unfold due
  rw [Nat.min_eq_left few]
  dsimp only
  rw [floor_quotient few, largest]
  unfold Scalar.clip
  omega

/-- The length of some samples is rounded to a nanosecond, and to no more. -/
theorem spanOf_error (few : count ≤ 689) :
    |441 * (spanOf Float count : ℤ) - 640000000 * count| ≤ 220 := by
  have counted : (count : ℚ) ≤ 689 := by exact_mod_cast few
  have nonneg : (0 : ℚ) ≤ count := Nat.cast_nonneg count
  have held : heldPeriod = 6692696262570359 / 4611686018427387904 := rfl
  have number : HasValue (Scalar.ofNat count) count := hasValue_count (few.trans (by norm_num))
  have product := number.mul hasValue_period
    (abs_intCast_lt_limit (abs_natCast_le (few.trans (by norm_num))))
    ((show |heldPeriod| ≤ 1 by decide +kernel).trans_lt one_lt_limit)
  have error := nearest_error (q := count * heldPeriod) (by rw [held]; positivity)
    (by rw [held]; linarith)
  have least : 0 ≤ nearest (count * heldPeriod) := nearest_nonneg (by rw [held]; positivity)
  have rounding := Scalar.abs_nearestEven_sub_le (nearest (count * heldPeriod) * second)
  unfold spanOf
  rw [product.value_eq]
  rw [cast_second] at rounding ⊢
  rw [held] at *
  generalize nearest (count * (6692696262570359 / 4611686018427387904)) = v at *
  generalize Scalar.nearestEven (v * 1000000000) = m at *
  obtain ⟨low, high⟩ := abs_le.mp error
  obtain ⟨down, up⟩ := abs_le.mp rounding
  have positive : (-1 : ℚ) < m := by linarith
  have positive : -1 < m := by exact_mod_cast positive
  rw [Int.toNat_of_nonneg (by omega), abs_le]
  have above : (441 * m - 640000000 * count : ℚ) < 221 := by linarith
  have below : (-221 : ℚ) < 441 * m - 640000000 * count := by linarith
  have above : 441 * m - 640000000 * count < 221 := by exact_mod_cast above
  have below : -221 < 441 * m - 640000000 * count := by exact_mod_cast below
  omega

-- =============================================================== one poll

/-- What a poll does to a clock that stands at `made`: how many samples it makes,
and where it leaves the clock. -/
def tick (made now : ℕ) : ℕ × ℕ :=
  let s : Simulation Float := start (fun _ => 0) made
  (s.due now, if s.due now = 0 then made else s.madeAfter now (s.due now))

theorem le_tick (made now : ℕ) : made ≤ (tick made now).2 := by
  unfold tick madeAfter
  dsimp only
  split_ifs with idle late
  · exact le_rfl
  · have late : second < now - made := late
    omega
  · exact Nat.le_add_right _ _

/-- How far a clock may be behind a poll that it has kept up with. -/
def longestRest : ℕ := 1451247

variable {made now : ℕ}

/-- A poll that comes in time makes all samples that fit, and moves the clock by
their length, but for the rounding; less than a period is left. -/
theorem tick_spec (order : made ≤ now) (soon : now ≤ made + second) :
    (tick made now).1 = 441 * (now - made) / 640000000
      ∧ |441 * ((tick made now).2 - made : ℤ) - 640000000 * (tick made now).1| ≤ 220
      ∧ (tick made now).2 ≤ now ∧ now ≤ (tick made now).2 + longestRest := by
  have count : (start (fun _ => 0) made : Simulation Float).due now
      = 441 * (now - made) / 640000000 := due_eq _ soon
  have le : now ≤ made + 1000000000 := soon
  have rest : longestRest = 1451247 := rfl
  have kept : ¬ second < now - made := by
    rw [second_eq]
    omega
  unfold tick
  dsimp only
  rw [count]
  split_ifs with idle
  · rw [idle, rest]
    refine ⟨rfl, by norm_num, order, ?_⟩
    omega
  · have few : 441 * (now - made) / 640000000 ≤ 689 := by omega
    have after : (start (fun _ => 0) made : Simulation Float).madeAfter now
        (441 * (now - made) / 640000000)
          = made + spanOf Float (441 * (now - made) / 640000000) := if_neg kept
    have error := abs_le.mp (spanOf_error few)
    rw [after, rest, abs_le]
    refine ⟨rfl, ?_, ?_, ?_⟩ <;> omega

-- ================================================================== polls

/-- What polls at some times do to a clock. -/
def clock : List ℕ → ℕ → ℕ × ℕ
  | [], made => (0, made)
  | now :: later, made =>
    ((tick made now).1 + (clock later (tick made now).2).1, (clock later (tick made now).2).2)

/-- Polls come in the order of time, none more than a second after the time up to
which samples were made. -/
def KeepsUp : List ℕ → ℕ → Prop
  | [], _ => True
  | now :: later, made => made ≤ now ∧ now ≤ made + second ∧ KeepsUp later (tick made now).2

instance : ∀ (times : List ℕ) (made : ℕ), Decidable (KeepsUp times made)
  | [], _ => isTrue trivial
  | now :: later, made =>
    have := instDecidableKeepsUp later (tick made now).2
    inferInstanceAs (Decidable (_ ∧ _ ∧ _))

/-- Polls keep up if they follow one another within a second less a period. -/
theorem keepsUp_of_spaced {times : List ℕ} {last : ℕ} (left : made ≤ last)
    (rest : last ≤ made + longestRest)
    (spaced : (last :: times).IsChain fun a b => a ≤ b ∧ b ≤ a + (second - longestRest)) :
    KeepsUp times made := by
  induction times generalizing made last with
  | nil => trivial
  | cons now later ih =>
      obtain ⟨⟨order, gap⟩, spaced⟩ := List.isChain_cons_cons.mp spaced
      have one_second := second_eq
      have period : longestRest = 1451247 := rfl
      have soon : now ≤ made + second := by omega
      obtain ⟨-, -, before, near⟩ := tick_spec (left.trans order) soon
      exact ⟨left.trans order, soon, ih before near spaced⟩

/-- The clock does not go back. -/
theorem le_clock (times : List ℕ) (made : ℕ) : made ≤ (clock times made).2 := by
  induction times generalizing made with
  | nil => exact le_rfl
  | cons now later ih => exact (le_tick made now).trans (ih _)

/-- Polls may be counted in two goes. -/
theorem clock_append (earlier later : List ℕ) (made : ℕ) :
    clock (earlier ++ later) made
      = ((clock earlier made).1 + (clock later (clock earlier made).2).1,
        (clock later (clock earlier made).2).2) := by
  induction earlier generalizing made with
  | nil => simp [clock]
  | cons now rest ih =>
      rw [List.cons_append, clock, ih, clock]
      exact Prod.ext (Nat.add_assoc _ _ _).symm rfl

/-- Polls that keep up do so in both parts. -/
theorem keepsUp_append {earlier later : List ℕ} (h : KeepsUp (earlier ++ later) made) :
    KeepsUp earlier made ∧ KeepsUp later (clock earlier made).2 := by
  induction earlier generalizing made with
  | nil => exact ⟨trivial, h⟩
  | cons now rest ih =>
      obtain ⟨order, soon, h⟩ := h
      obtain ⟨front, back⟩ := ih h
      exact ⟨⟨order, soon, front⟩, back⟩

/-- Over several polls the roundings add up. -/
theorem clock_drift {times : List ℕ} (h : KeepsUp times made) :
    |441 * ((clock times made).2 - made : ℤ) - 640000000 * (clock times made).1|
      ≤ 220 * times.length := by
  induction times generalizing made with
  | nil => simp [clock]
  | cons now later ih =>
      obtain ⟨order, soon, h⟩ := h
      obtain ⟨-, first, -, -⟩ := tick_spec order soon
      have others := ih h
      rw [abs_le] at first others ⊢
      rw [clock, List.length_cons]
      push_cast
      constructor <;> linarith

/-- Polls make as many samples as whole periods fit, up to what the roundings of
all polls but the last add up to. -/
theorem count_of_polls {earlier : List ℕ} {stop : ℕ} (h : KeepsUp (earlier ++ [stop]) made) :
    640000000 * (clock (earlier ++ [stop]) made).1 ≤ 441 * (stop - made) + 220 * earlier.length
      ∧ 441 * (stop - made)
        < 640000000 * ((clock (earlier ++ [stop]) made).1 + 1) + 220 * earlier.length := by
  obtain ⟨front, order, soon, -⟩ := keepsUp_append h
  obtain ⟨last, -, -, -⟩ := tick_spec order soon
  have drift := abs_le.mp (clock_drift front)
  have later := le_clock earlier made
  have total : (clock (earlier ++ [stop]) made).1
      = (clock earlier made).1 + (tick (clock earlier made).2 stop).1 := by
    rw [clock_append]
    rfl
  rw [total, last]
  omega

-- ================================================================ periods

/-- The length of some periods, in nanoseconds. -/
def lasting (count : ℕ) : ℚ := count * (period : ℚ) * second

/-- How long so many samples last. -/
theorem lasting_eq (count : ℕ) : lasting count = 640000000 * count / 441 := by
  have exact_period : (period : ℚ) = 64 / 44100 := rfl
  unfold lasting
  rw [exact_period, cast_second]
  ring

/-- The samples of some polls last as long as the polls took, but for the rest of a
period and the roundings. -/
theorem lasting_of_polls {earlier : List ℕ} {stop : ℕ} (h : KeepsUp (earlier ++ [stop]) made) :
    lasting (clock (earlier ++ [stop]) made).1 ≤ (stop - made : ℕ) + earlier.length / 2
      ∧ (stop - made : ℕ)
        < lasting ((clock (earlier ++ [stop]) made).1 + 1) + earlier.length / 2 := by
  obtain ⟨most, least⟩ := count_of_polls h
  have most : (640000000 * (clock (earlier ++ [stop]) made).1 : ℚ)
      ≤ 441 * (stop - made : ℕ) + 220 * earlier.length := by exact_mod_cast most
  have least : (441 * (stop - made : ℕ) : ℚ)
      < 640000000 * ((clock (earlier ++ [stop]) made).1 + 1 : ℕ) + 220 * earlier.length := by
    exact_mod_cast least
  have polls : (0 : ℚ) ≤ earlier.length := Nat.cast_nonneg _
  rw [lasting_eq, lasting_eq]
  constructor <;> linarith

/-- A time that is half a nanosecond for each of some polls away from the ends of
all periods. -/
def Clear (polls elapsed : ℕ) : Prop := ∀ count : ℕ, (polls : ℚ) / 2 ≤ |elapsed - lasting count|

/-- Where a clear time lies among the periods. -/
theorem Clear.rest {polls elapsed : ℕ} (clear : Clear polls elapsed) :
    441 * polls ≤ 2 * (441 * elapsed % 640000000)
      ∧ 441 * polls + 2 * (441 * elapsed % 640000000) ≤ 1280000000 := by
  have parts := Nat.div_add_mod (441 * elapsed) 640000000
  have inside := Nat.mod_lt (441 * elapsed) (show 640000000 > 0 by norm_num)
  have before := clear (441 * elapsed / 640000000)
  have after := clear (441 * elapsed / 640000000 + 1)
  rw [lasting_eq] at before after
  generalize 441 * elapsed / 640000000 = n at *
  generalize 441 * elapsed % 640000000 = r at *
  have parts : (640000000 * n + r : ℚ) = 441 * elapsed := by exact_mod_cast parts
  have inside : (r : ℚ) ≤ 640000000 := by exact_mod_cast inside.le
  have nonneg : (0 : ℚ) ≤ r := Nat.cast_nonneg r
  push_cast at after
  rw [abs_of_nonneg (by linarith)] at before
  rw [abs_of_nonpos (by linarith)] at after
  have low : (441 * polls : ℚ) ≤ 2 * r := by linarith
  have high : (441 * polls + 2 * r : ℚ) ≤ 1280000000 := by linarith
  exact ⟨by exact_mod_cast low, by exact_mod_cast high⟩

/-- Polls up to a clear time make as many samples as whole periods fit. -/
theorem count_of_clear {earlier : List ℕ} {stop polls : ℕ}
    (h : KeepsUp (earlier ++ [stop]) made) (few : earlier.length ≤ polls)
    (clear : Clear polls (stop - made)) :
    (clock (earlier ++ [stop]) made).1 = 441 * (stop - made) / 640000000 := by
  obtain ⟨most, least⟩ := count_of_polls h
  obtain ⟨low, high⟩ := clear.rest
  omega

end Metrograph.Engine.Simulation
