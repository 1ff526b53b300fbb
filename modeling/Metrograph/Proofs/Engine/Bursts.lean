/-
Where the bursts of a made-up signal begin.

# Samples one by one

The samples of several polls follow from one another however the polls are
spaced, so a signal is described sample by sample: `beforeAll` lists where
it stands before each of them. While the configuration stays, the beat
before sample `m` of a fresh signal is `m` steps from zero.

# What is remembered

A burst begins where the note index differs from the one remembered. From
the second sample on the signal `Tracks` its loop: it remembers the number
of the last instance at or before its beat, so a differing index means an
instance in between, and only such a one does. A fresh signal remembers
nothing, which differs from every index: the first sample begins a burst
wherever the first note lies, also where the loop opens with a rest.
-/
import Metrograph.Engine.Simulation
import Metrograph.Proofs.Wire.NoteIndex

namespace Metrograph.Engine.Simulation

open Metrograph.Rhythm (Exactly Loop compile)
open Metrograph.Waveform (Sample)

-- ===================================================== sample by sample

section

variable {α : Type} [Scalar α] (config : Wire.Config α)

/-- Beats from one sample to the next. -/
def stepOf : α := config.bpm / Scalar.ofNat 60 * period

/-- Polls at some times, one after another, and the samples of all of them. -/
def pollAll : List ℕ → Simulation α → List (Sample α) × Simulation α
  | [], s => ([], s)
  | now :: later, s =>
    let (samples, s) := s.poll config now
    let (more, s) := pollAll later s
    (samples ++ more, s)

/-- Where a signal stands before each of its next few samples. -/
def before : ℕ → Simulation α → List (Simulation α)
  | 0, _ => []
  | count + 1, s => s :: before count (s.next config (stepOf config)).2

/-- Where a signal stands before each sample of a poll. -/
def beforePoll (now : ℕ) (s : Simulation α) : List (Simulation α) :=
  before config (s.due now) { s with madeUpTo := s.madeAfter now (s.due now) }

/-- Where a signal stands before each sample of several polls. -/
def beforeAll : List ℕ → Simulation α → List (Simulation α)
  | [], _ => []
  | now :: later, s => s.beforePoll config now ++ beforeAll later (s.poll config now).2

/-- The next sample begins a burst. -/
def StartsBurst (s : Simulation α) : Prop :=
  (s.advance config (stepOf config)).burstLeft = burstLength

instance (s : Simulation α) : Decidable (s.StartsBurst config) :=
  inferInstanceAs (Decidable (_ = _))

theorem length_before (count : ℕ) (s : Simulation α) :
    (before config count s).length = count := by
  induction count generalizing s with
  | zero => rfl
  | succ count ih => exact congrArg Nat.succ (ih _)

/-- Samples are made one by one, each from where the one before left off. -/
theorem samples_take (count : ℕ) (s : Simulation α) :
    (take config (stepOf config) count s).1
      = (before config count s).map fun b => (b.next config (stepOf config)).1 := by
  induction count generalizing s with
  | zero => rfl
  | succ count ih =>
      unfold take before
      rw [List.map_cons, ← ih]

/-- A poll makes the samples that are due. -/
theorem poll_eq_take (now : ℕ) (s : Simulation α) :
    (s.poll config now).1 = (take config (stepOf config) (s.due now)
      { s with madeUpTo := s.madeAfter now (s.due now) }).1 := by
  unfold poll
  by_cases idle : s.due now = 0
  · rw [idle]
    rfl
  · dsimp only
    rw [if_neg idle]
    rfl

/-- The samples of all polls are the next samples of the places listed. -/
theorem samples_pollAll (times : List ℕ) (s : Simulation α) :
    (s.pollAll config times).1
      = (s.beforeAll config times).map fun b => (b.next config (stepOf config)).1 := by
  induction times generalizing s with
  | nil => rfl
  | cons now later ih =>
      unfold pollAll beforeAll
      rw [List.map_append, ← ih, beforePoll, ← samples_take, ← poll_eq_take]

-- ============================================================ one sample

variable {config} {step : α} {s : Simulation α}

/-- Each sample is one step of the beat later. -/
theorem beat_advance : (s.advance config step).beat = s.beat + step := by
  unfold advance
  dsimp only
  split
  · rfl
  · rfl

/-- The note index at the beat of a sample is remembered. -/
theorem lastNote_advance :
    (s.advance config step).lastNote = config.audioSubdivisions.noteIndexAt (s.beat + step) := by
  unfold advance
  dsimp only
  split
  next same => exact same.symm
  next => rfl

/-- A burst never has more samples left than it begins with. -/
theorem burstLeft_advance_le (ended : s.burstLeft < burstLength) :
    (s.advance config step).burstLeft ≤ burstLength := by
  unfold advance
  dsimp only
  split
  · exact ended.le
  · show (if _ then burstLength else s.burstLeft) ≤ burstLength
    split
    · exact le_rfl
    · exact ended.le

/-- With the click on, a burst begins where the note index differs from the one
remembered. -/
theorem startsBurst_iff_index (on : config.clickOn = true) (ended : s.burstLeft < burstLength)
    {m : ℤ} (index : config.audioSubdivisions.noteIndexAt (s.beat + stepOf config) = some m) :
    s.StartsBurst config ↔ s.lastNote ≠ some m := by
  unfold StartsBurst advance
  dsimp only
  rw [index, on]
  by_cases same : some m = s.lastNote
  · rw [if_pos same]
    exact iff_of_false ended.ne (fun differs => differs same.symm)
  · rw [if_neg same]
    exact iff_of_true rfl (fun known => same known.symm)

end

-- ============================================================= tracking

/-- Before sample `m` of a fresh signal: the beat is `m` steps from zero, and
the last instance by it is remembered, unless nothing is yet. -/
structure Tracks (config : Wire.Config ℚ) (loop : Loop ℚ) (m : ℕ) (s : Simulation ℚ) : Prop where
  beat : s.beat = m * stepOf config
  fresh : m = 0 → s.lastNote = none
  last : m ≠ 0 → ∃ p, s.lastNote = some p ∧ loop.LastBy s.beat p
  ended : s.burstLeft < burstLength

variable {config : Wire.Config ℚ} {loop : Loop ℚ}

/-- With a tempo the beat moves on. -/
theorem stepOf_pos (tempo : 0 < config.bpm) : 0 < stepOf config := by
  have period_pos : (0 : ℚ) < period := by decide +kernel
  exact mul_pos (div_pos tempo (by norm_num)) period_pos

namespace Tracks

/-- A simulation that just started keeps track: it has seen no note. -/
theorem start (noise : ℕ → ℚ) (now : ℕ) : Tracks config loop 0 (start noise now) where
  beat := by
    rw [Nat.cast_zero, zero_mul]
    rfl
  fresh := fun _ => rfl
  last := fun h => absurd rfl h
  ended := by
    show 0 < burstLength
    decide

/-- One whose beat is set back keeps track from there. -/
theorem resetBeat (s : Simulation ℚ) : Tracks config loop 0 s.resetBeat where
  beat := by
    rw [Nat.cast_zero, zero_mul]
    rfl
  fresh := fun _ => rfl
  last := fun h => absurd rfl h
  ended := by
    show 0 < burstLength
    decide

variable {m : ℕ} {s : Simulation ℚ}

/-- The time up to which samples were made does not matter to a sample. -/
theorem madeUpTo (h : Tracks config loop m s) (time : ℕ) :
    Tracks config loop m { s with madeUpTo := time } :=
  ⟨h.beat, h.fresh, h.last, h.ended⟩

section

variable (h : Tracks config loop m s) (formed : loop.WellFormed)
  (rhythm : config.audioSubdivisions = .ofLoop loop)

include h formed rhythm

/-- A sample remembers the last instance by its beat. -/
theorem next : Tracks config loop (m + 1) (s.next config (stepOf config)).2 := by
  obtain ⟨p, index, last⟩ := Wire.Rhythm.noteIndexAt_ofLoop formed (s.beat + stepOf config)
  refine ⟨?_, fun zero => absurd zero (Nat.succ_ne_zero m), fun _ => ⟨p, ?_, ?_⟩, ?_⟩
  · show (s.advance config (stepOf config)).beat = _
    rw [beat_advance, h.beat, Nat.cast_add, Nat.cast_one, add_mul, one_mul]
  · show (s.advance config (stepOf config)).lastNote = _
    rw [lastNote_advance, rhythm, index]
  · show loop.LastBy (s.advance config (stepOf config)).beat p
    rw [beat_advance]
    exact last
  · show (s.advance config (stepOf config)).burstLeft - 1 < burstLength
    have within : (s.advance config (stepOf config)).burstLeft ≤ burstLength :=
      burstLeft_advance_le h.ended
    exact (Nat.sub_le_sub_right within 1).trans_lt (by decide)

/-- A burst begins at the first sample, and at every later one where an instance
lies after the beat before. -/
theorem startsBurst_iff (on : config.clickOn = true) (tempo : 0 < config.bpm) :
    s.StartsBurst config
      ↔ m = 0 ∨ ∃ i : loop.Instance, s.beat < i.beat ∧ i.beat ≤ s.beat + stepOf config := by
  obtain ⟨q, index, last⟩ := Wire.Rhythm.noteIndexAt_ofLoop formed (s.beat + stepOf config)
  rw [startsBurst_iff_index on h.ended (rhythm ▸ index)]
  by_cases first : m = 0
  · rw [h.fresh first]
    exact iff_of_true (Option.some_ne_none q).symm (Or.inl first)
  · obtain ⟨p, remembered, known⟩ := h.last first
    have later : s.beat ≤ s.beat + stepOf config := le_add_of_nonneg_right (stepOf_pos tempo).le
    rw [remembered, ← known.ne_iff formed.sounds last later]
    exact ⟨fun differ => Or.inr fun same => differ (congrArg some same),
      fun either same => (either.resolve_left first) (Option.some.inj same)⟩

end

-- ================================================================= runs

variable (formed : loop.WellFormed) (rhythm : config.audioSubdivisions = .ofLoop loop)

include formed rhythm

/-- While samples are made the simulation keeps track of the note it is at. -/
theorem take {m : ℕ} {s : Simulation ℚ} (h : Tracks config loop m s) (count : ℕ) :
    (∀ k b, (before config count s)[k]? = some b → Tracks config loop (m + k) b)
      ∧ Tracks config loop (m + count) (take config (stepOf config) count s).2 := by
  induction count generalizing m s with
  | zero => exact ⟨fun k b none => absurd none (by simp [before]), h⟩
  | succ count ih =>
      obtain ⟨inside, after⟩ := ih (h.next formed rhythm)
      rw [Nat.add_right_comm] at after
      refine ⟨fun k b at_k => ?_, after⟩
      cases k with
      | zero =>
          cases at_k
          exact h
      | succ k =>
          rw [← Nat.add_assoc, Nat.add_right_comm]
          exact inside k b at_k

/-- Polling keeps track. -/
theorem poll {m : ℕ} {s : Simulation ℚ} (h : Tracks config loop m s) (now : ℕ) :
    (∀ k b, (s.beforePoll config now)[k]? = some b → Tracks config loop (m + k) b)
      ∧ Tracks config loop (m + (s.beforePoll config now).length) (s.poll config now).2 := by
  have taken := take formed rhythm (h.madeUpTo (s.madeAfter now (s.due now))) (s.due now)
  refine ⟨taken.1, ?_⟩
  unfold beforePoll Simulation.poll
  rw [length_before]
  dsimp only
  split
  next idle =>
    rw [idle]
    exact h
  next => exact taken.2

/-- Polling again and again keeps track. -/
theorem pollAll {m : ℕ} {s : Simulation ℚ} (h : Tracks config loop m s) (times : List ℕ) :
    ∀ k b, (s.beforeAll config times)[k]? = some b → Tracks config loop (m + k) b := by
  induction times generalizing m s with
  | nil => exact fun k b none => absurd none (by simp [beforeAll])
  | cons now later ih =>
      intro k b at_k
      obtain ⟨inside, after⟩ := h.poll formed rhythm now
      unfold beforeAll at at_k
      by_cases within : k < (s.beforePoll config now).length
      · rw [List.getElem?_append_left within] at at_k
        exact inside k b at_k
      · have beyond := Nat.le_of_not_lt within
        rw [List.getElem?_append_right beyond] at at_k
        have tracked := ih after _ b at_k
        rwa [Nat.add_assoc, Nat.add_sub_cancel' beyond] at tracked

end Tracks

-- ================================================================ bursts

/-- From a fresh signal on, sample `m` of the polls leads from `m` steps after
beat zero one step further, and begins a burst just when it is the first or an
instance lies on the way. -/
theorem bursts_of_crossings {text : String} (exact : Exactly text loop)
    (rhythm : config.audioSubdivisions = .ofLoop loop) (on : config.clickOn = true)
    (tempo : 0 < config.bpm) {s : Simulation ℚ}
    (fresh : (∃ noise now, s = .start noise now) ∨ ∃ t : Simulation ℚ, s = t.resetBeat) (times : List ℕ) :
    (s.beforeAll config times).length = (s.pollAll config times).1.length
      ∧ ∀ (m : ℕ) (b : Simulation ℚ), (s.beforeAll config times)[m]? = some b →
        b.beat = m * stepOf config
        ∧ (s.pollAll config times).1[m]? = some (b.next config (stepOf config)).1
        ∧ (b.next config (stepOf config)).1.beat = (m + 1) * stepOf config
        ∧ (b.StartsBurst config ↔ m = 0 ∨ ∃ i : loop.Instance,
          m * stepOf config < i.beat ∧ i.beat ≤ (m + 1) * stepOf config) := by
  have formed := exact.wellFormed
  have tracked : Tracks config loop 0 s := by
    obtain ⟨noise, now, rfl⟩ | ⟨t, rfl⟩ := fresh
    · exact Tracks.start noise now
    · exact Tracks.resetBeat t
  rw [samples_pollAll]
  refine ⟨(List.length_map _).symm, fun m b at_m => ?_⟩
  have here : Tracks config loop m b := by
    have := tracked.pollAll formed rhythm times m b at_m
    rwa [Nat.zero_add] at this
  have further : b.beat + stepOf config = (m + 1) * stepOf config := by
    rw [here.beat, add_mul, one_mul]
  refine ⟨here.beat, ?_, ?_, ?_⟩
  · rw [List.getElem?_map, at_m]
    rfl
  · show (b.advance config (stepOf config)).beat = _
    rw [beat_advance, further]
  · rw [here.startsBurst_iff formed rhythm on tempo, further, here.beat]

/-- A click and nothing else, a beat a second. -/
def clickOnly (loop : Loop ℚ) : Wire.Config ℚ where
  audioInGain := 0
  audioMonitorOn := false
  beatsToLoop := 4
  bpm := 60
  bufferCompensation := 0
  clickOn := true
  clickToggle := false
  clickVolume := 1
  drumOn := false
  loopingOn := false
  playFile := false
  audioSubdivisions := .ofLoop loop
  visualMonitorOn := true

theorem stepOf_clickOnly (loop : Loop ℚ) : stepOf (clickOnly loop) = 16 / 11025 := by
  show (60 / 60 * (64 / 44100) : ℚ) = _
  norm_num

open Wire.Rhythm (offbeat compile_offbeat) in
/-- With one note in the middle of each beat a burst begins where half a beat is
reached, in the second of two polls. -/
theorem bursts_of_crossings_offbeat :
    compile "[~1 1]" = .ok offbeat
      ∧ ∃ b, ((start 0 0).beforeAll (clickOnly offbeat) [100000000, 900000000])[344]? = some b
        ∧ b.beat < 1 / 2 ∧ b.StartsBurst (clickOnly offbeat) := by
  have many : 344 < ((start 0 0).beforeAll (clickOnly offbeat) [100000000, 900000000]).length := by
    decide +kernel
  have at_344 := List.getElem?_eq_getElem many
  have rhythm : (clickOnly offbeat).audioSubdivisions = .ofLoop offbeat := rfl
  have tempo : (0 : ℚ) < (clickOnly offbeat).bpm := show (0 : ℚ) < 60 by norm_num
  have fresh : (∃ noise now, (start 0 0 : Simulation ℚ) = .start noise now)
      ∨ ∃ t : Simulation ℚ, (start 0 0 : Simulation ℚ) = t.resetBeat := Or.inl ⟨0, 0, rfl⟩
  obtain ⟨-, each⟩ := bursts_of_crossings (.compiled compile_offbeat) rhythm rfl tempo fresh
    [100000000, 900000000]
  obtain ⟨beat, -, -, burst⟩ := each 344 _ at_344
  rw [stepOf_clickOnly] at beat burst
  refine ⟨compile_offbeat, _, at_344, ?_, burst.mpr (Or.inr ⟨⟨0, ⟨0, by decide⟩⟩, ?_, ?_⟩)⟩
  · rw [beat]
    norm_num
  · show ((344 : ℕ) : ℚ) * (16 / 11025) < (0 : ℤ) * 1 + 1 / 2
    norm_num
  · show ((0 : ℤ) * 1 + 1 / 2 : ℚ) ≤ ((344 : ℕ) + 1) * (16 / 11025)
    norm_num

open Wire.Rhythm (offbeat compile_offbeat) in
/-- A burst need not lie on a note: the first sample of a loop that opens with
half a beat of rest begins one. -/
theorem burst_before_first_note :
    compile "[~1 1]" = .ok offbeat
      ∧ ((start 0 0).pollAll (clickOnly offbeat) [100000000]).1[0]?.map (·.beat) = some (16 / 11025)
      ∧ (∃ b, ((start 0 0).beforeAll (clickOnly offbeat) [100000000])[0]? = some b
        ∧ b.StartsBurst (clickOnly offbeat))
      ∧ ¬ ∃ i : offbeat.Instance, 0 ≤ i.beat ∧ i.beat ≤ 16 / 11025 := by
  have first : (((start 0 0).beforeAll (clickOnly offbeat) [100000000])[0]?.any fun b =>
      b.StartsBurst (clickOnly offbeat)) = true := by decide +kernel
  obtain ⟨b, at_0, burst⟩ := (Option.any_eq_true _ _).mp first
  refine ⟨compile_offbeat, by decide +kernel, ⟨b, at_0, of_decide_eq_true burst⟩, ?_⟩
  rintro ⟨i, low, high⟩
  have formed := Metrograph.Rhythm.wellFormed_of_compile compile_offbeat
  obtain ⟨p, index, before⟩ := Wire.Rhythm.noteIndexAt_ofLoop formed (-1 / 4)
  obtain ⟨q, index', after⟩ := Wire.Rhythm.noteIndexAt_ofLoop formed (1 / 4)
  have quiet : p = q := by
    have same : (Wire.Rhythm.ofLoop offbeat).noteIndexAt (-1 / 4)
        = (Wire.Rhythm.ofLoop offbeat).noteIndexAt (1 / 4) := by decide +kernel
    rw [index, index'] at same
    exact Option.some.inj same
  refine (before.ne_iff formed.sounds after (by norm_num)).mpr ⟨i, ?_, ?_⟩ quiet
  · linarith
  · linarith

end Metrograph.Engine.Simulation
