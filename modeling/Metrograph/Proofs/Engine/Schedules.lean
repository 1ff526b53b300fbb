/-
What a made-up signal owes to the times at which it is polled.

# The signal

Sample follows sample however they are divided over polls: the samples of
several polls are those that one run of so many samples makes, and leave
the signal where that run leaves it, but for its clock (`take_add`,
`pollAll_eq`). So two schedules differ in nothing if they make the same
number of samples.

# The number

How many samples there are is decided by the clock alone (`clock_eq`).
Each poll carries over to the next what is left of a period, but to whole
nanoseconds, and what is lost or gained adds up. So the number is that of
the periods that have passed only up to half a nanosecond for each poll,
and schedules that end at one time can differ by a sample if the end of a
period is that near (`samples_of_schedules`, `schedules_differ`).
-/
import Metrograph.Engine.Engine
import Metrograph.Proofs.Engine.Bursts
import Metrograph.Proofs.Engine.Clock

namespace Metrograph.Engine

open Metrograph.Waveform (Sample)

namespace Simulation

-- =============================================================== samples

section

variable {α : Type} [Scalar α] (config : Wire.Config α) (step : α)

/-- A signal with its clock set to a time. -/
def withClock (time : ℕ) (s : Simulation α) : Simulation α := { s with madeUpTo := time }

/-- The first sample is made before the others. -/
theorem take_succ (count : ℕ) (s : Simulation α) :
    take config step (count + 1) s
      = ((s.next config step).1 :: (take config step count (s.next config step).2).1,
        (take config step count (s.next config step).2).2) := rfl

/-- The next sample does not depend on the clock. -/
theorem next_withClock (time : ℕ) (s : Simulation α) :
    (s.withClock time).next config step
      = ((s.next config step).1, (s.next config step).2.withClock time) := by
  have advanced : (s.withClock time).advance config step
      = (s.advance config step).withClock time := by
    unfold advance withClock
    dsimp only
    split <;> rfl
  unfold next
  rw [advanced]
  rfl

/-- The clock takes no part in making samples. -/
theorem take_withClock (time count : ℕ) (s : Simulation α) :
    take config step count (s.withClock time)
      = ((take config step count s).1, (take config step count s).2.withClock time) := by
  induction count generalizing s with
  | zero => rfl
  | succ count ih => rw [take_succ, take_succ, next_withClock, ih]

/-- Samples may be made in two goes. -/
theorem take_add (first more : ℕ) (s : Simulation α) :
    take config step (first + more) s
      = ((take config step first s).1 ++ (take config step more (take config step first s).2).1,
        (take config step more (take config step first s).2).2) := by
  induction first generalizing s with
  | zero => simp [take]
  | succ first ih => rw [Nat.add_right_comm, take_succ, take_succ, ih, List.cons_append]

theorem length_take (count : ℕ) (s : Simulation α) :
    (take config step count s).1.length = count := by
  induction count generalizing s with
  | zero => rfl
  | succ count ih => exact congrArg Nat.succ (ih _)

/-- Each sample moves the beat by one step. -/
theorem beat_take (count : ℕ) (s : Simulation α) :
    (take config step count s).2.beat = (· + step)^[count] s.beat := by
  induction count generalizing s with
  | zero => rfl
  | succ count ih =>
      unfold take
      rw [ih, Function.iterate_succ_apply]
      exact congrArg _ beat_advance

end

-- ================================================================= polls

variable (config : Wire.Config Float)

/-- A poll makes as many samples as the clock ticks, and sets the clock. -/
theorem poll_eq (s : Simulation Float) (now : ℕ) :
    s.poll config now
      = ((take config (stepOf config) (tick s.madeUpTo now).1 s).1,
        (take config (stepOf config) (tick s.madeUpTo now).1 s).2.withClock
          (tick s.madeUpTo now).2) := by
  have count : (tick s.madeUpTo now).1 = s.due now := rfl
  have after : (tick s.madeUpTo now).2
      = if s.due now = 0 then s.madeUpTo else s.madeAfter now (s.due now) := rfl
  rw [count, after]
  unfold poll
  dsimp only
  split_ifs with idle
  · rw [idle]
    rfl
  · exact take_withClock config _ _ _ s

/-- Polls make the next samples, as many as the clock says. -/
theorem pollAll_eq (times : List ℕ) (s : Simulation Float) :
    s.pollAll config times
      = ((take config (stepOf config) (clock times s.madeUpTo).1 s).1,
        (take config (stepOf config) (clock times s.madeUpTo).1 s).2.withClock
          (clock times s.madeUpTo).2) := by
  induction times generalizing s with
  | nil => rfl
  | cons now later ih =>
      have made : ((take config (stepOf config) (tick s.madeUpTo now).1 s).2.withClock
          (tick s.madeUpTo now).2).madeUpTo = (tick s.madeUpTo now).2 := rfl
      rw [pollAll, poll_eq]
      dsimp only
      rw [ih, made, clock, take_add, take_withClock]
      rfl

end Simulation

namespace Simulated

open Simulation (clock KeepsUp Clear lasting stepOf longestRest)

/-- Polls of an engine at some times, and the samples that they return. -/
def pollAll : List ℕ → Simulated → List (Sample Float) × Simulated
  | [], e => ([], e)
  | now :: later, e =>
    let (samples, e) := e.poll now
    let (more, e) := pollAll later e
    (samples ++ more, e)

/-- The signal runs on in the same way whether its samples are seen or not. -/
theorem pollAll_eq (times : List ℕ) (e : Simulated) :
    e.pollAll times
      = (if e.config.visualMonitorOn then (e.signal.pollAll e.config times).1 else [],
        { e with signal := (e.signal.pollAll e.config times).2 }) := by
  induction times generalizing e with
  | nil => simp [pollAll, Simulation.pollAll]
  | cons now later ih =>
      rw [pollAll, Simulation.pollAll, poll]
      dsimp only
      rw [ih]
      cases e.config.visualMonitorOn <;> rfl

/-- A schedule returns as many samples as its clock ticks, if the monitor is on. -/
theorem length_pollAll (times : List ℕ) (e : Simulated) :
    (e.pollAll times).1.length
      = if e.config.visualMonitorOn then (clock times e.signal.madeUpTo).1 else 0 := by
  rw [pollAll_eq, Simulation.pollAll_eq]
  split
  · exact Simulation.length_take _ _ _ _
  · rfl

/-- The beat moves on by one step for every tick. -/
theorem beat_pollAll (times : List ℕ) (e : Simulated) :
    (e.pollAll times).2.signal.beat
      = (· + stepOf e.config)^[(clock times e.signal.madeUpTo).1] e.signal.beat := by
  rw [pollAll_eq, Simulation.pollAll_eq]
  exact Simulation.beat_take _ _ _ _

/-- Polls that make the same number of samples make the same samples. -/
theorem pollAll_congr {times others : List ℕ} {e : Simulated}
    (same : (clock times e.signal.madeUpTo).1 = (clock others e.signal.madeUpTo).1) :
    (e.pollAll times).1 = (e.pollAll others).1
      ∧ (e.pollAll times).2.signal.beat = (e.pollAll others).2.signal.beat := by
  rw [beat_pollAll, beat_pollAll, pollAll_eq, pollAll_eq, Simulation.pollAll_eq,
    Simulation.pollAll_eq, same]
  exact ⟨rfl, rfl⟩

-- ============================================================= schedules

/-- Polls within a second less a period of one another keep up with the clock.
Polls that keep up return a sample for every period that has passed, up to half a
nanosecond for each of them but the last, or none where samples are not seen, and
leave the beat so many steps further. So schedules that end at one time return
the same samples and leave the same beat, unless the end of a period is nearer to
that time than their roundings reach. -/
theorem samples_of_schedules (e : Simulated) :
    (∀ (last : ℕ) (times : List ℕ), e.signal.madeUpTo ≤ last →
      last ≤ e.signal.madeUpTo + longestRest →
      (last :: times).IsChain (fun a b => a ≤ b ∧ b ≤ a + (Simulation.second - longestRest)) →
      KeepsUp times e.signal.madeUpTo)
    ∧ (∀ (earlier : List ℕ) (stop : ℕ), KeepsUp (earlier ++ [stop]) e.signal.madeUpTo →
      ∃ count : ℕ,
        (e.pollAll (earlier ++ [stop])).1.length
            = (if e.config.visualMonitorOn then count else 0)
          ∧ (e.pollAll (earlier ++ [stop])).2.signal.beat
            = (· + stepOf e.config)^[count] e.signal.beat
          ∧ lasting count ≤ (stop - e.signal.madeUpTo : ℕ) + earlier.length / 2
          ∧ (stop - e.signal.madeUpTo : ℕ) < lasting (count + 1) + earlier.length / 2)
    ∧ ∀ (earlier others : List ℕ) (stop polls : ℕ),
      KeepsUp (earlier ++ [stop]) e.signal.madeUpTo → earlier.length ≤ polls →
      KeepsUp (others ++ [stop]) e.signal.madeUpTo → others.length ≤ polls →
      Clear polls (stop - e.signal.madeUpTo) →
        (e.pollAll (earlier ++ [stop])).1 = (e.pollAll (others ++ [stop])).1
          ∧ (e.pollAll (earlier ++ [stop])).2.signal.beat
            = (e.pollAll (others ++ [stop])).2.signal.beat := by
  refine ⟨fun last times => Simulation.keepsUp_of_spaced, fun earlier stop kept => ?_,
    fun earlier others stop polls kept few kept' few' clear => pollAll_congr ?_⟩
  · exact ⟨_, length_pollAll _ e, beat_pollAll _ e, Simulation.lasting_of_polls kept⟩
  · rw [Simulation.count_of_clear kept few clear, Simulation.count_of_clear kept' few' clear]

/-- A tenth of a second lies between periods, and may be polled in parts. -/
theorem samples_of_schedules_tenth :
    Clear 3 (100000000 - 0)
      ∧ (Simulated.start noise 0 []).config.visualMonitorOn = true
      ∧ ((start noise 0 []).pollAll [100000000]).1.length = 68
      ∧ ((start noise 0 []).pollAll ([23000000, 46000000, 69000000] ++ [100000000])).1
        = ((start noise 0 []).pollAll ([] ++ [100000000])).1
      ∧ ((start noise 0 []).pollAll ([23000000, 46000000, 69000000] ++ [100000000])).2.signal.beat
        = ((start noise 0 []).pollAll ([] ++ [100000000])).2.signal.beat := by
  have clear : Clear 3 (100000000 - 0) := by
    intro count
    rw [Simulation.lasting_eq]
    rcases Nat.lt_or_ge count 69 with before | after
    · have before : (count : ℚ) ≤ 68 := by exact_mod_cast Nat.le_of_lt_succ before
      refine le_abs.mpr (Or.inl ?_)
      push_cast
      linarith
    · have after : (69 : ℚ) ≤ count := by exact_mod_cast after
      refine le_abs.mpr (Or.inr ?_)
      push_cast
      linarith
  obtain ⟨keeps, -, same⟩ := samples_of_schedules (start noise 0 [])
  have in_parts := keeps 0 [23000000, 46000000, 69000000, 100000000] le_rfl (by decide) (by decide)
  have at_once := keeps 0 [100000000] le_rfl (by decide) (by decide)
  refine ⟨clear, rfl, ?_, same _ _ _ 3 in_parts (by decide) at_once (by decide) clear⟩
  rw [length_pollAll]
  decide +kernel

/-- Polls of which none comes more than a second after the one before can differ
in what they return up to one time: what a poll at 5.805 ms rounds up is missing
at 640 ms, the end of a period; and a poll a second after another, which left a
part of a period, drops that part. -/
theorem schedules_differ :
    (∀ times ∈ [[640000000], [5805000, 640000000], [500000000, 1002000000],
        [1000000, 1001000000, 1002000000]],
      (0 :: times).IsChain fun a b => a ≤ b ∧ b ≤ a + Simulation.second)
    ∧ ((start noise 0 []).pollAll [640000000]).1.length = 441
    ∧ ((start noise 0 []).pollAll [5805000, 640000000]).1.length = 440
    ∧ ((start noise 0 []).pollAll [500000000, 1002000000]).1.length = 690
    ∧ ((start noise 0 []).pollAll [1000000, 1001000000, 1002000000]).1.length = 689 := by
  simp only [length_pollAll]
  decide +kernel

end Simulated

end Metrograph.Engine
