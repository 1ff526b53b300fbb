/-
A session among those who deal with it: the user, the engine, and whoever
mounts and unmounts it.

`Session/Loop.lean` fixes the order of all work at a moment. Nothing that
is proved about a session should depend on that order, so here there is
none: a `Machine` is a session with the requests that wait for it, and
`Step` lets any one thing happen that can happen in its phase. What holds
of everything a machine `Reaches` holds for every interleaving.

# Phases

Mounting starts a run with an empty queue of requests; a cancel ends it.
From then on nobody can send requests, and the two queues are worked off
one after the other: first the requests (`stopping`), whose handling may
still put calls into the outbox, then the calls (`flushing`). The end of
either phase is noticed by finding its own queue empty.

# The engine

A session calls and polls its engine, and others hold the engine too. What
they can make of it in the meantime is left open (`SharedEngine.Moves`): a
machine lets any such move happen at any time, and a poll may find the
engine moved.

# The record

Beside its state a machine notes what others ask of it: the requests sent
and handled since the last mount, and the operations that the store was
asked for since it was made.

# The loop is one of the runs

`shows_settle`, `shows_runUntil` and `returns_unmount` say that the fixed
order of `Session/Loop.lean` is among the interleavings.
-/
import Metrograph.Engine.Recorder
import Metrograph.Proofs.Config.Operation
import Metrograph.Session.Loop

namespace Metrograph

open Config (Store Operation)
open Engine (AudioEngine Command Recorder)

-- ============================================================ the engine

/-- An engine that others hold too. -/
class SharedEngine (ε : Type) extends AudioEngine ε where
  /-- What others can make of an engine while a session does nothing to it. -/
  Moves : ε → ε → Prop
  /-- They can leave it alone. -/
  still (engine : ε) : Moves engine engine

/-- A recorder is handed samples, and made to fail and to recover. Calls it gets
from its session alone. -/
instance : SharedEngine Recorder where
  Moves r r' := r'.calls = r.calls
  still _ := rfl

-- ============================================================ requests

/-- What a request asks of the store. -/
def Request.operation : Request → Operation
  | .set key text => .setText key text
  | .resize width height => .resize width height
  | .resetBeat => .send .resetBeat
  | .loadFile file => .send (.loadFile file)

/-- A request never hands a call on, so it announces nothing false. -/
theorem Request.operation_honest (r : Request) : r.operation.Honest := by
  intro c hc
  cases r <;> cases hc <;> rfl

/-- Requests are operations on the store. -/
theorem Session.outcome_eq {ε : Type} (s : Session ε) (r : Request) :
    s.outcome r = s.store.perform r.operation := by
  cases r <;> rfl

/-- What a timer brings: the engine, as it stands by then, is polled, or a
frame is drawn. -/
inductive Turn (ε : Type) where
  | poll (engine : ε) (now : Nat)
  | frame

/-- A poll finds what others have made of the engine. -/
def Turn.Finds {ε : Type} [SharedEngine ε] (engine : ε) : Turn ε → Prop
  | .poll found _ => SharedEngine.Moves engine found
  | .frame => True

/-- A session after a turn. -/
def Session.turn {ε : Type} [AudioEngine ε] (s : Session ε) : Turn ε → Session ε
  | .poll engine now => (poll { s with engine := engine } now).1
  | .frame => s.frame

-- ============================================================ the store

section Store

variable {ε : Type}

/-- Handling a request does to the store what the request asks of it. Beyond
that it concerns the picture and the count of refusals. -/
theorem Session.handle_eq (s : Session ε) (r : Request) :
    ∃ hold canvas rejected, (s.handle r).1 = { s with
      store := (s.store.perform r.operation).store
      hold := hold
      canvas := canvas
      stats.rejectedChanges := rejected } := by
  rw [← s.outcome_eq r]
  unfold Session.handle
  dsimp only
  split
  · exact ⟨_, _, _, rfl⟩
  · split <;> exact ⟨_, _, _, rfl⟩
  · exact ⟨_, _, _, rfl⟩
  · exact ⟨_, _, _, rfl⟩

/-- Handling a request leaves the store as the operation does. -/
theorem Session.store_handle (s : Session ε) (r : Request) :
    (s.handle r).1.store = (s.store.perform r.operation).store := by
  obtain ⟨hold, canvas, rejected, handled⟩ := s.handle_eq r
  rw [handled]

/-- Requests do not reach the engine. -/
theorem Session.engine_handle (s : Session ε) (r : Request) :
    (s.handle r).1.engine = s.engine := by
  obtain ⟨hold, canvas, rejected, handled⟩ := s.handle_eq r
  rw [handled]

variable [AudioEngine ε]

/-- A delivery calls the engine once, keeps what the engine became, and counts
a refusal. Nothing else of the session changes. -/
theorem Session.deliver_eq (s : Session ε) (c : Command) :
    (s.deliver c).1 = { s with
      engine := (AudioEngine.call c s.engine).engine
      stats.engineErrors := s.stats.engineErrors
        + ((AudioEngine.call c s.engine).fault?.elim 0 fun _ => 1) } := by
  unfold Session.deliver
  dsimp only
  cases (AudioEngine.call c s.engine).fault? <;> rfl

theorem Session.store_deliver (s : Session ε) (c : Command) : (s.deliver c).1.store = s.store := by
  rw [s.deliver_eq c]

theorem Session.store_poll (s : Session ε) (now : Nat) : (s.poll now).1.store = s.store := by
  unfold Session.poll
  dsimp only
  split <;> rfl

/-- A turn leaves the store alone. -/
theorem Session.store_turn (s : Session ε) (t : Turn ε) : (s.turn t).store = s.store := by
  cases t with
  | poll engine now => exact Session.store_poll _ now
  | frame => rfl

end Store

-- ============================================================ machines

/-- What a machine does with its queues. -/
inductive Phase where
  | idle
  | running
  /-- Cancelled; requests are still handled. -/
  | stopping
  /-- Cancelled and without requests; calls are still delivered. -/
  | flushing
  deriving DecidableEq

/-- A session, the phase it is in, what waits for it, and what was asked of it. -/
structure Machine (ε : Type) where
  session : Session ε
  phase : Phase
  /-- The requests that wait, oldest first. -/
  requests : List Request
  /-- The requests sent since the last mount. -/
  sent : List Request
  /-- The requests handled since the last mount. -/
  handled : List Request
  /-- What the store was asked to do since it was made, oldest first. -/
  operations : List Operation

namespace Machine

variable {ε : Type}

/-- The calls on their way to the engine, oldest first. -/
def queue (m : Machine ε) : List Command := m.session.store.outbox.queued

/-- An idle machine over a store that was made over a configuration and has
been through some operations. -/
def start (made : Store) (past : List Operation) (engine : ε) (timing : Timing) : Machine ε where
  session := .ofStore (made.performAll past) engine timing
  phase := .idle
  requests := []
  sent := []
  handled := []
  operations := past

/-- The store carries out an operation. -/
def perform (m : Machine ε) (op : Operation) : Machine ε :=
  { m with
    session.store := (m.session.store.perform op).store
    operations := m.operations ++ [op] }

/-- The first of the waiting requests is handled. -/
def handle (m : Machine ε) (r : Request) (rest : List Request) : Machine ε :=
  { m with
    session := (m.session.handle r).1
    requests := rest
    handled := m.handled ++ [r]
    operations := m.operations ++ [r.operation] }

/-- The first of the waiting calls is delivered. -/
def deliver [AudioEngine ε] (m : Machine ε) (c : Command) (rest : List Command) : Machine ε :=
  { m with session := (Session.deliver { m.session with store.outbox.queued := rest } c).1 }

theorem store_handle (m : Machine ε) (r : Request) (rest : List Request) :
    (m.handle r rest).session.store = (m.session.store.perform r.operation).store :=
  m.session.store_handle r

/-- Delivering a call takes it from the outbox and changes nothing else in the store. -/
theorem store_deliver [AudioEngine ε] (m : Machine ε) (c : Command) (rest : List Command) :
    (m.deliver c rest).session.store = { m.session.store with outbox.queued := rest } :=
  Session.store_deliver { m.session with store.outbox.queued := rest } c

/-- One thing happens. -/
inductive Step [SharedEngine ε] : Machine ε → Machine ε → Prop
  /-- Others do something to the engine. -/
  | engine {m : Machine ε} {engine : ε} (moves : SharedEngine.Moves m.session.engine engine) :
      Step m { m with session.engine := engine }
  | push {m : Machine ε} (idle : m.phase = .idle) : Step m (m.perform .push)
  | call {m : Machine ε} (idle : m.phase = .idle) (c : Command) : Step m (m.perform (.send c))
  | mount {m : Machine ε} (idle : m.phase = .idle) :
      Step m { m with phase := .running, requests := [], sent := [], handled := [] }
  | send {m : Machine ε} (running : m.phase = .running) (r : Request) :
      Step m { m with requests := m.requests ++ [r], sent := m.sent ++ [r] }
  | handle {m : Machine ε} (busy : m.phase = .running ∨ m.phase = .stopping) {r : Request}
      {rest : List Request} (first : m.requests = r :: rest) : Step m (m.handle r rest)
  | deliver {m : Machine ε} (busy : m.phase = .running ∨ m.phase = .flushing) {c : Command}
      {rest : List Command} (first : m.queue = c :: rest) : Step m (m.deliver c rest)
  | turn {m : Machine ε} (running : m.phase = .running) (t : Turn ε)
      (finds : t.Finds m.session.engine) : Step m { m with session := m.session.turn t }
  | readLog {m : Machine ε} (running : m.phase = .running) (position : Nat) :
      Step m { m with
        session := (m.session.readLog ((AudioEngine.log m.session.engine).readFrom position)).1 }
  | cancel {m : Machine ε} (running : m.phase = .running) : Step m { m with phase := .stopping }
  | flush {m : Machine ε} (stopping : m.phase = .stopping) (none : m.requests = []) :
      Step m { m with phase := .flushing }
  | finish {m : Machine ε} (flushing : m.phase = .flushing) (none : m.queue = []) :
      Step m { m with phase := .idle }

/-- Any number of things happen. A turn always ends here, also one whose frame
the program never finishes (`Session.frame`): no run of the program is missing,
and what a machine reaches behind such a frame is more than the program does. -/
inductive Reaches [SharedEngine ε] (m : Machine ε) : Machine ε → Prop
  | refl : Reaches m m
  | tail {m₁ m₂ : Machine ε} : Reaches m m₁ → Step m₁ m₂ → Reaches m m₂

variable [SharedEngine ε] {m m₁ m₂ : Machine ε}

/-- One thing is a number of things. -/
theorem Step.reaches (h : Step m m₁) : Reaches m m₁ := .tail .refl h

/-- A number of things may be followed by more. -/
theorem Reaches.trans (h₁ : Reaches m m₁) (h₂ : Reaches m₁ m₂) : Reaches m m₂ := by
  induction h₂ with
  | refl => exact h₁
  | tail _ step ih => exact .tail ih step

/-- What every step keeps, every run keeps. -/
theorem Reaches.keeps {P : Machine ε → Prop} (h : Reaches m m₁)
    (step : ∀ {a b : Machine ε}, Step a b → P a → P b) (init : P m) : P m₁ := by
  induction h with
  | refl => exact init
  | tail _ st ih => exact step st ih

/-- A run returns only with an empty outbox, and changes nothing as it does. -/
theorem Step.returns (step : Step m m₁) (flushing : m.phase = .flushing)
    (idle : m₁.phase = .idle) : m.queue = [] ∧ m₁ = { m with phase := .idle } := by
  cases step with
  | finish _ none => exact ⟨none, rfl⟩
  | cancel | flush => cases idle
  | mount => cases idle
  | engine | push | call | send | handle | deliver | turn | readLog =>
      have : Phase.flushing = .idle := flushing.symm.trans idle
      cases this

-- ============================================== the loop is one of the runs

/-- The machine stands where a mounted session does. -/
def Shows (m : Machine ε) (x : Mounted ε) : Prop :=
  m.phase = .running ∧ m.session = x.session ∧ m.requests = x.requests

/-- A machine can mount as the session does. -/
theorem shows_mount (idle : m.phase = .idle) :
    ∃ m', Step m m' ∧ m'.Shows m.session.mount :=
  ⟨_, .mount idle, rfl, rfl, rfl⟩

/-- A machine takes requests as the session does. -/
theorem shows_send {x : Mounted ε} (h : m.Shows x) (r : Request) :
    ∃ m', Step m m' ∧ m'.Shows (x.send r) := by
  obtain ⟨running, session, requests⟩ := h
  exact ⟨_, .send running r, running, session, congrArg (· ++ [r]) requests⟩

/-- All waiting requests may be handled one after another. -/
theorem reaches_handleAll {requests : List Request}
    (busy : m.phase = .running ∨ m.phase = .stopping) (waiting : m.requests = requests) :
    ∃ m', Reaches m m' ∧ m'.session = (m.session.handleAll requests).1
      ∧ m'.requests = [] ∧ m'.phase = m.phase ∧ m'.sent = m.sent := by
  induction requests generalizing m with
  | nil => exact ⟨m, .refl, rfl, waiting, rfl, rfl⟩
  | cons r rest ih =>
      obtain ⟨m', reached, session, requests, same⟩ := @ih (m.handle r rest) busy rfl
      exact ⟨m', (Step.handle busy waiting).reaches.trans reached, session, requests, same⟩

/-- A delivery neither reads nor changes the outbox. -/
theorem deliver_outbox (s : Session ε) (c : Command) (a b : List Command) :
    { ({ s with store.outbox.queued := a }.deliver c).1 with store.outbox.queued := b }
      = ({ s with store.outbox.queued := b }.deliver c).1 := by
  rw [Session.deliver_eq, Session.deliver_eq]

/-- All waiting calls may be delivered one after another. -/
theorem reaches_deliverAll {calls : List Command} (busy : m.phase = .running ∨ m.phase = .flushing)
    (waiting : m.queue = calls) :
    ∃ m', Reaches m m'
      ∧ m'.session
        = (Session.repeatStep Session.deliver { m.session with store.outbox.queued := [] } calls).1
      ∧ m'.queue = [] ∧ m'.requests = m.requests ∧ m'.phase = m.phase ∧ m'.sent = m.sent := by
  induction calls generalizing m with
  | nil =>
      refine ⟨m, .refl, ?_, waiting, rfl, rfl, rfl⟩
      show m.session = { m.session with store.outbox.queued := [] }
      rw [← waiting]
      rfl
  | cons c rest ih =>
      have queued : (m.deliver c rest).queue = rest := by
        unfold queue
        rw [store_deliver]
      obtain ⟨m', reached, session, empty, same⟩ := @ih (m.deliver c rest) busy queued
      refine ⟨m', (Step.deliver busy waiting).reaches.trans reached, ?_, empty, same⟩
      rw [session]
      exact congrArg (fun s => (Session.repeatStep Session.deliver s rest).1)
        (deliver_outbox m.session c rest [])

/-- The turns of a timer that are due may be taken one after another. -/
theorem reaches_runDue (work : Session ε → Session ε × List Notice)
    (turns : ∀ s, ∃ t : Turn ε, t.Finds s.engine ∧ (work s).1 = s.turn t)
    (running : m.phase = .running) (now limit : Nat) (t : Timer) :
    ∃ m', Reaches m m' ∧ m'.session = (t.runDue work now limit m.session).2.1
      ∧ m'.requests = m.requests ∧ m'.phase = .running := by
  generalize hs : m.session = s
  fun_induction Timer.runDue work now limit t s generalizing m with
  | case1 t s due s₁ said worked t₂ s₂ more rest ih =>
      obtain ⟨turn, finds, hturn⟩ := turns s
      rw [worked] at hturn
      -- one turn is taken, and the others from where it leaves the session
      have stepped : ({ m with session := m.session.turn turn } : Machine ε).session = s₁ := by
        rw [hs]
        exact hturn.symm
      obtain ⟨m', reached, session, requests, phase⟩ :=
        @ih { m with session := m.session.turn turn } running stepped
      rw [rest] at session
      rw [← hs] at finds
      exact ⟨m', (Step.turn running turn finds).reaches.trans reached, session, requests, phase⟩
  | case2 t s due => exact ⟨m, .refl, hs, rfl, running⟩

/-- All that is done at one moment may be done. -/
theorem shows_settle {x : Mounted ε} (h : m.Shows x) (now limit : Nat) :
    ∃ m', Reaches m m' ∧ m'.Shows (x.settle now limit).1 := by
  obtain ⟨running, session, requests⟩ := h
  -- requests, calls, polls, frames, and then the log
  obtain ⟨m₁, r₁, s₁, q₁, p₁, -⟩ := reaches_handleAll (Or.inl running) requests
  rw [running] at p₁
  obtain ⟨m₂, r₂, s₂, empty, q₂, p₂, -⟩ := reaches_deliverAll (Or.inl p₁) rfl
  rw [p₁] at p₂
  obtain ⟨m₃, r₃, s₃, q₃, p₃⟩ := reaches_runDue (fun s => s.poll now)
    (fun s => ⟨.poll s.engine now, SharedEngine.still _, rfl⟩) p₂ now limit (x.begin now).1.poll
  obtain ⟨m₄, r₄, s₄, q₄, p₄⟩ := reaches_runDue (fun s => (s.frame, []))
    (fun s => ⟨.frame, trivial, rfl⟩) p₃ now limit (x.begin now).1.frame
  have read := Step.readLog p₄ (x.begin now).1.logRead
  refine ⟨_, (((r₁.trans r₂).trans r₃).trans r₄).trans read.reaches, p₄, ?_, ?_⟩
  · rw [session] at s₁
    dsimp only
    rw [s₄, s₃, s₂]
    unfold queue
    rw [s₁]
    rfl
  · rw [q₄, q₃, q₂, q₁]
    rfl

/-- Time may pass. -/
theorem shows_runUntil (stop fuel now : Nat) {x : Mounted ε} (h : m.Shows x) :
    ∃ m', Reaches m m' ∧ m'.Shows (Mounted.runUntil stop fuel now x).1 := by
  induction fuel generalizing m x now with
  | zero => exact ⟨m, .refl, h⟩
  | succ fuel ih =>
      unfold Mounted.runUntil
      by_cases early : now < stop
      · rw [if_pos early]
        obtain ⟨m₁, r₁, h₁⟩ := shows_settle h now now
        obtain ⟨m₂, r₂, h₂⟩ := ih ((x.settle now now).1.nextTurn now) h₁
        exact ⟨m₂, r₁.trans r₂, h₂⟩
      · rw [if_neg early]
        exact ⟨m, .refl, h⟩

/-- The loop of `Session/Loop.lean` ends the way a machine may end: nobody sends
any more, both queues are worked off, and the run returns. -/
theorem returns_unmount {x : Mounted ε} (h : m.Shows x) (now : Nat) :
    ∃ m₁ m', Reaches m m₁ ∧ Step m₁ m' ∧ m₁.phase = .flushing ∧ m'.phase = .idle
      ∧ m'.session = (x.unmount now).1 ∧ m'.sent = m.sent := by
  obtain ⟨running, session, requests⟩ := h
  obtain ⟨m₁, r₁, s₁, q₁, p₁, t₁⟩ := reaches_handleAll
    (m := { m with phase := .stopping }) (Or.inr rfl) requests
  obtain ⟨m₂, r₂, s₂, empty, q₂, p₂, t₂⟩ := reaches_deliverAll
    (m := { m₁ with phase := .flushing }) (Or.inr rfl) rfl
  have stopping := (Step.cancel running).reaches.trans r₁
  have flushing := (stopping.tail (.flush p₁ q₁)).trans r₂
  have unmounted : m₂.session = (x.unmount now).1 := by
    rw [session] at s₁
    rw [s₂]
    unfold queue
    dsimp only
    rw [s₁]
    rfl
  exact ⟨m₂, _, flushing, .finish p₂ empty, p₂, rfl, unmounted, t₂.trans t₁⟩

end Machine

end Metrograph
