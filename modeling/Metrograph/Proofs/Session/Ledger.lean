/-
What becomes of every sample.

# The record of a run

A `Ledger` notes what the polls returned and what the frames passed on to
the downsampler, and `Recorded` says which ledger a run has: an answered
poll adds its samples, a frame closes the interval since the frame before,
and whatever else happens, failing polls among it, adds nothing. Every run
has a ledger (`exists_recorded`).

# The invariant

`Balanced` compares the ledger with the session. Nothing is said of single
polls: since the last frame the buffer holds the newest of all samples
that came in, as many as it has room for, and the two counters are sums
over the intervals. The buffer's own count of what gave way and the
session's are raised together, so they agree however often the session
was mounted.

# Three fates

In every interval the oldest samples were dropped and the others met the
fate of the interval, which is to be ingested or, in the last one, to be
pending (`Ledger.marked`). This marks the whole stream, every sample once.
-/
import Metrograph.Proofs.Session.Cuts
import Metrograph.Proofs.Waveform.Buffer

namespace Metrograph

open Config (Store Operation)
open Engine (AudioEngine)
open Waveform (Sample Buffer newest outdated)

-- ============================================================ ledgers

/-- What was polled up to a frame, since the frame before, and what the frame
passed on. -/
structure Interval where
  polled : List (Sample Float)
  ingested : List (Sample Float)

/-- The samples of a run. -/
structure Ledger where
  /-- The intervals that ended in a frame. -/
  frames : List Interval
  /-- What was polled since the last frame. -/
  recent : List (Sample Float)

/-- What can become of a sample. -/
inductive Fate where
  | ingested
  | dropped
  | pending
  deriving DecidableEq

/-- The samples of a fate, in order. -/
def withFate (fate : Fate) (marked : List (Fate × Sample Float)) : List (Sample Float) :=
  (marked.filter fun m => m.1 = fate).map (·.2)

/-- Marks the samples of an interval: the oldest were dropped, the others met
some fate. -/
def markInterval (capacity : Nat) (fate : Fate) (polled : List (Sample Float)) :
    List (Fate × Sample Float) :=
  (outdated capacity polled).map (.dropped, ·) ++ (newest capacity polled).map (fate, ·)

namespace Ledger

/-- The ledger before anything was polled. -/
def empty : Ledger := ⟨[], []⟩

/-- All samples that were polled, in order. -/
def stream (l : Ledger) : List (Sample Float) := l.frames.flatMap (·.polled) ++ l.recent

/-- All samples that frames passed on, in order. -/
def ingested (l : Ledger) : List (Sample Float) := l.frames.flatMap (·.ingested)

/-- Notes a batch that was polled. -/
def poll (l : Ledger) (batch : List (Sample Float)) : Ledger :=
  { l with recent := l.recent ++ batch }

/-- Notes a frame and what it passed on. -/
def draw (l : Ledger) (ingested : List (Sample Float)) : Ledger :=
  ⟨l.frames ++ [⟨l.recent, ingested⟩], []⟩

/-- The stream with what became of every sample. -/
def marked (capacity : Nat) (l : Ledger) : List (Fate × Sample Float) :=
  l.frames.flatMap (fun i => markInterval capacity .ingested i.polled)
    ++ markInterval capacity .pending l.recent

end Ledger

-- ================================================================ fates

/-- Fates are looked up one sample at a time. -/
theorem withFate_append (fate : Fate) (xs ys : List (Fate × Sample Float)) :
    withFate fate (xs ++ ys) = withFate fate xs ++ withFate fate ys := by
  unfold withFate
  rw [List.filter_append, List.map_append]

/-- Of samples that met one fate, all or none are of a fate. -/
theorem withFate_map (fate met : Fate) (xs : List (Sample Float)) :
    withFate fate (xs.map (met, ·)) = if met = fate then xs else [] := by
  unfold withFate
  rw [List.filter_map, List.map_map]
  by_cases same : met = fate
  · rw [if_pos same, List.filter_eq_self.mpr (fun x _ => by simpa using same)]
    exact List.map_id xs
  · rw [if_neg same, List.filter_eq_nil_iff.mpr (fun x _ => by simpa using same)]
    rfl

variable {capacity : Nat} {fate : Fate}

/-- Marking an interval loses no sample and keeps their order. -/
theorem snd_markInterval (capacity : Nat) (fate : Fate) (polled : List (Sample Float)) :
    (markInterval capacity fate polled).map (·.2) = polled := by
  unfold markInterval
  rw [List.map_append, List.map_map, List.map_map]
  show (outdated capacity polled).map id ++ (newest capacity polled).map id = polled
  rw [List.map_id, List.map_id, Waveform.outdated_append_newest]

/-- What becomes of an interval: its newest samples meet the frame's fate, the
others are dropped. -/
theorem withFate_markInterval (met : Fate) (polled : List (Sample Float)) :
    withFate fate (markInterval capacity met polled)
      = (if Fate.dropped = fate then outdated capacity polled else [])
        ++ if met = fate then newest capacity polled else [] := by
  unfold markInterval
  rw [withFate_append, withFate_map, withFate_map]

/-- The same for one frame after another. -/
theorem withFate_flatMap {β : Type} (fate : Fate) (xs : List β)
    (marks : β → List (Fate × Sample Float)) :
    withFate fate (xs.flatMap marks) = xs.flatMap fun x => withFate fate (marks x) := by
  unfold withFate
  rw [List.filter_flatMap, List.map_flatMap]

/-- Every sample that is marked is of exactly one of the three fates. -/
theorem length_fates (marked : List (Fate × Sample Float)) :
    (withFate .ingested marked).length + (withFate .dropped marked).length
      + (withFate .pending marked).length = marked.length := by
  induction marked with
  | nil => rfl
  | cons m rest ih =>
      obtain ⟨met, x⟩ := m
      unfold withFate at ih ⊢
      rw [List.length_map, List.length_map, List.length_map] at ih ⊢
      rw [List.length_cons]
      cases met <;> simp only [List.filter_cons, reduceCtorEq, decide_true, decide_false,
        Bool.false_eq_true, if_true, if_false, List.length_cons] <;> omega

namespace Ledger

variable (l : Ledger)

/-- The ledger with its marks is the whole stream. -/
theorem snd_marked (capacity : Nat) : (l.marked capacity).map (·.2) = l.stream := by
  unfold marked stream
  rw [List.map_append, List.map_flatMap, snd_markInterval]
  simp only [snd_markInterval]

/-- Of every interval all but the newest samples are dropped. -/
theorem dropped_marked (capacity : Nat) :
    withFate .dropped (l.marked capacity)
      = l.frames.flatMap (fun i => outdated capacity i.polled) ++ outdated capacity l.recent := by
  unfold marked
  rw [withFate_append, withFate_flatMap]
  simp [withFate_markInterval]

/-- The newest samples since the last frame are waiting. -/
theorem pending_marked (capacity : Nat) :
    withFate .pending (l.marked capacity) = newest capacity l.recent := by
  unfold marked
  rw [withFate_append, withFate_flatMap]
  simp [withFate_markInterval]

/-- Where every frame passes on the newest, the samples marked as ingested are
those that frames passed on. -/
theorem ingested_marked {l : Ledger}
    (frames : ∀ i ∈ l.frames, i.ingested = newest capacity i.polled) :
    withFate .ingested (l.marked capacity) = l.ingested := by
  unfold marked ingested
  rw [withFate_append, withFate_flatMap]
  simp only [withFate_markInterval, reduceCtorEq, if_true, if_false, List.append_nil,
    List.nil_append]
  exact List.flatMap_congr fun i member => (frames i member).symm

end Ledger

-- ============================================================= sessions

/-- What a session keeps about samples. -/
structure Intake where
  pending : Buffer (Sample Float)
  polls : Nat
  frames : Nat
  samples : Nat
  dropped : Nat

namespace Intake

/-- A batch is polled. -/
def receive (k : Intake) (batch : List (Sample Float)) : Intake :=
  { k with
    pending := k.pending.push batch
    polls := k.polls + 1
    dropped := k.dropped + k.pending.overflow batch }

/-- A frame takes out all that is pending. -/
def draw (k : Intake) : Intake :=
  { k with
    pending := k.pending.drain.2
    frames := k.frames + 1
    samples := k.samples + k.pending.drain.1.length }

end Intake

namespace Session

variable {ε : Type}

/-- What a session keeps of the samples it takes in. -/
def intake (s : Session ε) : Intake :=
  ⟨s.pending, s.stats.polls, s.stats.frames, s.stats.samples, s.stats.dropped⟩

/-- Requests take no samples in and draw none. -/
theorem intake_handle (s : Session ε) (r : Request) : (s.handle r).1.intake = s.intake := by
  obtain ⟨hold, canvas, rejected, handled⟩ := s.handle_eq r
  rw [handled]
  rfl

/-- A frame draws what is waiting. -/
theorem intake_frame (s : Session ε) : s.frame.intake = s.intake.draw := rfl

variable [AudioEngine ε]

/-- Neither do calls. -/
theorem intake_deliver (s : Session ε) (c : Engine.Command) :
    (s.deliver c).1.intake = s.intake := by
  rw [s.deliver_eq c]
  rfl

/-- A poll that is answered takes the batch in. -/
theorem intake_poll (s : Session ε) {engine : ε} {now : Nat} {batch : List (Sample Float)}
    (answered : (AudioEngine.poll now engine).1 = .ok batch) :
    (s.turn (.poll engine now)).intake = s.intake.receive batch := by
  show (poll { s with engine := engine } now).1.intake = _
  unfold poll
  dsimp only
  rw [answered]
  rfl

/-- A poll that fails takes nothing in. -/
theorem intake_failed (s : Session ε) {engine : ε} {now : Nat} {fault : Engine.Fault}
    (failed : (AudioEngine.poll now engine).1 = .error fault) :
    (s.turn (.poll engine now)).intake = s.intake := by
  show (poll { s with engine := engine } now).1.intake = _
  unfold poll
  dsimp only
  rw [failed]
  rfl

end Session

-- ================================================================ runs

namespace Machine

variable {ε : Type} [SharedEngine ε] {m m' : Machine ε}

/-- A step is a turn or does not concern samples. -/
theorem Step.turn_or_aside (step : Step m m') :
    (m.phase = .running ∧ ∃ t, m' = { m with session := m.session.turn t })
      ∨ m'.session.intake = m.session.intake := by
  cases step with
  | turn running t _ => exact Or.inl ⟨running, t, rfl⟩
  | handle _ first => exact Or.inr (m.session.intake_handle _)
  | @deliver _ c rest first =>
      exact Or.inr (Session.intake_deliver { m.session with store.outbox.queued := rest } c)
  | engine | push | call | mount | send | readLog | cancel | flush | finish => exact Or.inr rfl

/-- The ledger of a run. What is neither a poll that is answered nor a frame
leaves the counts of both. -/
inductive Recorded (m₀ : Machine ε) : Ledger → Machine ε → Prop
  | start : Recorded m₀ .empty m₀
  | polled {l : Ledger} {m : Machine ε} (before : Recorded m₀ l m) (running : m.phase = .running)
      (engine : ε) (now : Nat) {batch : List (Sample Float)}
      (answered : (AudioEngine.poll now engine).1 = .ok batch) :
      Recorded m₀ (l.poll batch) { m with session := m.session.turn (.poll engine now) }
  | drawn {l : Ledger} {m : Machine ε} (before : Recorded m₀ l m) (running : m.phase = .running) :
      Recorded m₀ (l.draw m.session.pending.drain.1) { m with session := m.session.turn .frame }
  | aside {l : Ledger} {m m' : Machine ε} (before : Recorded m₀ l m) (step : Step m m')
      (polls : m'.session.stats.polls = m.session.stats.polls)
      (frames : m'.session.stats.frames = m.session.stats.frames) : Recorded m₀ l m'

/-- Every run has a ledger. -/
theorem exists_recorded {m₀ : Machine ε} (run : Reaches m₀ m) : ∃ l, Recorded m₀ l m := by
  induction run with
  | refl => exact ⟨_, .start⟩
  | @tail m₁ _ _ step ih =>
      obtain ⟨l, before⟩ := ih
      rcases step.turn_or_aside with ⟨running, t, rfl⟩ | kept
      · cases t with
        | frame => exact ⟨_, before.drawn running⟩
        | poll engine now =>
            cases answer : (AudioEngine.poll now engine).1 with
            | ok batch => exact ⟨_, before.polled running engine now answer⟩
            | error fault =>
                have kept := m₁.session.intake_failed answer
                exact ⟨l, before.aside step (congrArg Intake.polls kept)
                  (congrArg Intake.frames kept)⟩
      · exact ⟨l, before.aside step (congrArg Intake.polls kept) (congrArg Intake.frames kept)⟩

/-- A step that leaves the counts of polls and frames does not concern
samples. -/
theorem Step.intake_eq (step : Step m m')
    (polls : m'.session.stats.polls = m.session.stats.polls)
    (frames : m'.session.stats.frames = m.session.stats.frames) :
    m'.session.intake = m.session.intake := by
  rcases step.turn_or_aside with ⟨-, t, rfl⟩ | kept
  · cases t with
    | frame => exact absurd frames (Nat.succ_ne_self _)
    | poll engine now =>
        cases answer : (AudioEngine.poll now engine).1 with
        | ok batch =>
            have counted := congrArg Intake.polls (m.session.intake_poll answer)
            exact absurd (counted.symm.trans polls) (Nat.succ_ne_self _)
        | error fault => exact m.session.intake_failed answer
  · exact kept

end Machine

-- ============================================================ the balance

/-- A ledger accounts for what a session keeps about samples. -/
structure Balanced (capacity : Nat) (l : Ledger) (k : Intake) : Prop where
  buffer : k.pending.Keeps capacity l.recent
  frames : ∀ i ∈ l.frames, i.ingested = newest capacity i.polled
  samples : k.samples = l.ingested.length
  dropped : k.dropped = (withFate .dropped (l.marked capacity)).length
  total : k.pending.dropped = k.dropped

variable {l : Ledger} {k : Intake}

/-- A session that is fresh has an empty ledger. -/
theorem balanced_empty (capacity : Nat) :
    Balanced capacity .empty ⟨.ofCapacity capacity, 0, 0, 0, 0⟩ where
  buffer := Buffer.keeps_ofCapacity capacity
  frames := nofun
  samples := rfl
  dropped := by
    rw [Ledger.dropped_marked]
    show 0 = (outdated capacity []).length
    rw [Waveform.length_outdated]
    exact (Nat.zero_sub _).symm
  total := rfl

/-- A batch goes into the ledger as it goes into the buffer. -/
theorem Balanced.receive (h : Balanced capacity l k) (batch : List (Sample Float)) :
    Balanced capacity (l.poll batch) (k.receive batch) where
  buffer := h.buffer.push batch
  frames := h.frames
  samples := h.samples
  dropped := by
    have gone := h.dropped
    have room := h.buffer.overflow batch
    rw [Ledger.dropped_marked, List.length_append] at gone ⊢
    show k.dropped + k.pending.overflow batch
      = (l.frames.flatMap _).length + (outdated capacity (l.recent ++ batch)).length
    omega
  total := congrArg (· + k.pending.overflow batch) h.total

/-- A frame closes the interval in the ledger as in the buffer. -/
theorem Balanced.draw (h : Balanced capacity l k) :
    Balanced capacity (l.draw k.pending.drain.1) k.draw where
  buffer := h.buffer.drain.2
  frames := by
    intro i member
    rcases List.mem_append.mp member with earlier | last
    · exact h.frames i earlier
    · rw [List.mem_singleton.mp last]
      exact h.buffer.drain.1
  samples := by
    show k.samples + _ = (Ledger.ingested ⟨l.frames ++ [_], []⟩).length
    unfold Ledger.ingested
    rw [List.flatMap_append, List.length_append, h.samples]
    simp [Ledger.ingested]
  dropped := by
    have gone := h.dropped
    rw [Ledger.dropped_marked, List.length_append] at gone ⊢
    show k.dropped = ((l.frames ++ [_]).flatMap _).length + (outdated capacity []).length
    rw [List.flatMap_append, List.length_append, Waveform.length_outdated]
    simp [gone]
  total := h.total

namespace Machine

variable {ε : Type} [SharedEngine ε] {m m₀ : Machine ε}

/-- However long a run is, its ledger is balanced. -/
theorem Recorded.balanced (run : Recorded m₀ l m)
    (fresh : Balanced capacity .empty m₀.session.intake) : Balanced capacity l m.session.intake := by
  induction run with
  | start => exact fresh
  | polled _ _ engine now answered ih =>
      show Balanced _ _ (Session.turn _ _).intake
      rw [Session.intake_poll _ answered]
      exact ih.receive _
  | drawn _ _ ih =>
      show Balanced _ _ (Session.frame _).intake
      rw [Session.intake_frame]
      exact ih.draw
  | aside _ step polls frames ih =>
      rw [step.intake_eq polls frames]
      exact ih

variable {made : Store} {past : List Operation} {engine : ε} {timing : Timing}

/-- However polls, frames, requests and mounts follow each other, every sample
that a poll returned was ingested, dropped, or is pending. Of what came in
between two frames the newest were ingested, as many as there was room for,
all that was pending then; of what came in since the last frame they are
pending. The counters agree with this and with each other. -/
theorem samples_accounted (run : Reaches (start made past engine timing) m) :
    (∃ l, Recorded (start made past engine timing) l m)
      ∧ ∀ l, Recorded (start made past engine timing) l m →
        (∃ marked : List (Fate × Sample Float), marked.map (·.2) = l.stream
          ∧ withFate .ingested marked = l.ingested
          ∧ withFate .pending marked = m.session.pending.samples
          ∧ (withFate .dropped marked).length = m.session.stats.dropped)
        ∧ (∀ i ∈ l.frames, i.ingested = newest timing.capacity i.polled)
        ∧ m.session.pending.samples = newest timing.capacity l.recent
        ∧ m.session.frame.seen
          = m.session.seen.draw m.session.store.config.display m.session.pending.samples
        ∧ m.session.stats.samples + m.session.stats.dropped + m.session.pending.samples.length
          = l.stream.length
        ∧ m.session.stats.dropped = m.session.pending.dropped := by
  refine ⟨exists_recorded run, fun l recorded => ?_⟩
  have balanced := recorded.balanced (balanced_empty timing.capacity)
  have pending : m.session.pending.samples = newest timing.capacity l.recent :=
    balanced.buffer.samples_eq
  have waiting := (l.pending_marked timing.capacity).trans pending.symm
  have passed := Ledger.ingested_marked balanced.frames
  have counted := length_fates (l.marked timing.capacity)
  have whole := congrArg List.length (l.snd_marked timing.capacity)
  rw [List.length_map] at whole
  rw [waiting, passed, ← balanced.samples, ← balanced.dropped, whole] at counted
  refine ⟨⟨l.marked timing.capacity, l.snd_marked _, passed, waiting, balanced.dropped.symm⟩,
    balanced.frames, pending, ?_, counted, balanced.total.symm⟩
  rw [Session.seen_frame]
  unfold Session.ahead
  rw [List.append_nil]

/-- Two batches around a frame, both of them longer than the buffer, which has
room for one sample although its capacity is zero. -/
theorem samples_accounted_overflow :
    ∃ (m : Machine Engine.Recorder) (l : Ledger),
      Reaches (start .standard [] .script ⟨16000000, 23000000, 0⟩) m
        ∧ Recorded (start .standard [] .script ⟨16000000, 23000000, 0⟩) l m
        ∧ l.stream = [⟨0, 0.5⟩, ⟨1, 0.5⟩, ⟨2, 0.5⟩, ⟨3, 0.5⟩, ⟨4, 0.5⟩]
        ∧ l.ingested = [⟨1, 0.5⟩] ∧ m.session.pending.samples = [⟨4, 0.5⟩]
        ∧ (∃ marked : List (Fate × Sample Float), marked.map (·.2) = l.stream
          ∧ withFate .ingested marked = l.ingested
          ∧ withFate .pending marked = m.session.pending.samples
          ∧ (withFate .dropped marked).length = 3)
        ∧ m.session.stats.samples + m.session.stats.dropped + m.session.pending.samples.length = 5
        ∧ m.session.stats.dropped = m.session.pending.dropped := by
  let m₀ : Machine Engine.Recorder := start .standard [] .script ⟨16000000, 23000000, 0⟩
  let first := Engine.Recorder.script.queue [⟨0, 0.5⟩, ⟨1, 0.5⟩]
  let second := Engine.Recorder.script.queue [⟨2, 0.5⟩, ⟨3, 0.5⟩, ⟨4, 0.5⟩]
  have mounted := (Reaches.refl (m := m₀)).tail (.mount rfl)
  have drawn := (mounted.tail (.turn rfl (.poll first 0) rfl)).tail (.turn rfl .frame trivial)
  have run := drawn.tail (.turn rfl (.poll second 1) rfl)
  have begun : Recorded m₀ .empty m₀ := .start
  have shown := ((begun.aside (.mount rfl) rfl rfl).polled rfl first 0 rfl).drawn rfl
  have recorded := shown.polled rfl second 1 rfl
  obtain ⟨-, accounts⟩ := samples_accounted run
  obtain ⟨marked, -, -, -, counted, total⟩ := accounts _ recorded
  exact ⟨_, _, run, recorded, rfl, rfl, rfl, marked, counted, total⟩

end Machine

end Metrograph
