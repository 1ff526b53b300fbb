/-
What is asked of a session is done, once and in order, and what the
session asks of the engine reaches the engine, once and in order.

# The invariant

A tap on the engine hears the calls that reach it. `Tallied` puts them back
in front of the calls that still wait: the store is then what its
operations would have made of it if nobody had ever taken a call out, and
among the operations are the requests that were handled, which in turn are
the ones sent, as far as they do not wait. A delivery moves a call from one
part of the queue to the other, and no other step is heard. That both
queues are empty at the end of a run needs one thing more: once the
requests have been worked off, none can come in any more.

# The mirror

The engine knows the settings only from what it is sent. Since no
operation of the store changes them without sending them, the last ones
sent are always the current ones (`Store.Mirrored`); when no call waits any
more, they are also the last the engine was asked to take.
-/
import Mathlib.Data.List.Induction
import Metrograph.Proofs.Config.Mirror
import Metrograph.Proofs.Config.Waiting
import Metrograph.Proofs.Session.Tap

namespace Metrograph

open Config (Store Operation)
open Engine (AudioEngine Command Recorder)

-- =========================================================== attempts

/-- The settings that an attempt brought to the engine. -/
def Attempt.config? (a : Attempt) : Option (Wire.Config Float) := Config.config? a.call

/-- The settings that the engine took over in an attempt. -/
def Attempt.accepted? (a : Attempt) : Option (Wire.Config Float) :=
  match a.fault? with
  | none => a.config?
  | some _ => none

/-- The last attempt that brought settings. -/
def lastConfigured (attempts : List Attempt) : Option Attempt :=
  (attempts.filter fun a => a.config?.isSome).getLast?

/-- The last settings that the engine took over. -/
def lastAccepted (attempts : List Attempt) : Option (Wire.Config Float) :=
  (attempts.filterMap Attempt.accepted?).getLast?

/-- The last attempt that brought settings brought the last settings of all
calls. -/
theorem config?_lastConfigured (attempts : List Attempt) :
    (lastConfigured attempts).bind Attempt.config?
      = (Config.configs (attempts.map (·.call))).getLast? := by
  induction attempts using List.reverseRecOn with
  | nil => rfl
  | append_singleton front a ih =>
      unfold lastConfigured at ih ⊢
      rw [List.map_append, Config.configs_append, List.getLast?_append, ← ih,
        List.filter_append, List.getLast?_append]
      cases h : Config.config? a.call with
      | none => simp [Config.configs, Attempt.config?, h]
      | some c => simp [Config.configs, Attempt.config?, h]

/-- If the last attempt that brought settings was accepted, these are the last
that were. -/
theorem lastAccepted_eq {attempts : List Attempt} {a : Attempt}
    (last : lastConfigured attempts = some a) (accepted : a.fault? = none) :
    lastAccepted attempts = a.config? := by
  induction attempts using List.reverseRecOn with
  | nil => cases last
  | append_singleton front b ih =>
      unfold lastConfigured lastAccepted at *
      rw [List.filter_append, List.getLast?_append] at last
      rw [List.filterMap_append, List.getLast?_append]
      cases h : b.config? with
      | none =>
          have silent : b.accepted? = none := by
            unfold Attempt.accepted?
            rw [h]
            split <;> rfl
          rw [List.filterMap_cons_none silent]
          exact ih (by simpa [h] using last)
      | some c =>
          have hb : b = a := by simpa [h] using last
          subst hb
          have taken : b.accepted? = some c := by
            unfold Attempt.accepted?
            rw [accepted, h]
          rw [List.filterMap_cons_some taken, h]
          rfl

namespace Machine

variable {ε : Type} {m m' : Machine ε}

-- ============================================================ the tally

/-- What went into the two queues is what was taken out and what still waits;
where no requests are handled, none wait. -/
structure Tallied (made : Store) (heard : List Attempt) (m : Machine ε) : Prop where
  requests : m.handled ++ m.requests = m.sent
  calls : m.session.store.behind (heard.map (·.call)) = made.performAll m.operations
  asked : m.phase = .idle ∨ ∃ earlier, m.operations = earlier ++ m.handled.map Request.operation
  waiting : m.phase = .running ∨ m.phase = .stopping ∨ m.requests = []

variable {config : Config} {made : Store} {past : List Operation} {engine : ε} {timing : Timing}
  {heard : List Attempt}

/-- Once the requests have been worked off, none wait. -/
theorem Tallied.worked (h : Tallied made heard m) (flushing : m.phase = .flushing) :
    m.requests = [] := by
  rcases h.waiting with running | stopping | none
  · rw [flushing] at running
    cases running
  · rw [flushing] at stopping
    cases stopping
  · exact none

/-- Calls that were taken out do not matter to an operation. -/
theorem calls_perform {s : Store} {ops : List Operation} {taken : List Command}
    (calls : s.behind taken = made.performAll ops) (op : Operation) :
    (s.perform op).store.behind taken = made.performAll (ops ++ [op]) := by
  rw [Store.performAll_append, ← calls]
  exact (congrArg Config.Outcome.store (s.perform_behind taken op)).symm

theorem tallied_start : Tallied made [] (start made past engine timing) where
  requests := rfl
  calls := rfl
  asked := Or.inl rfl
  waiting := Or.inr (Or.inr rfl)

/-- What the tap and the queue hold together is all that the store has sent. -/
theorem Tallied.calls_eq (h : Tallied made heard m)
    (built : Store.ofConfig config .empty = .ok made) :
    heard.map (·.call) ++ m.queue = made.sendsAll m.operations := by
  obtain ⟨-, outbox, -⟩ := Store.drawn_ofConfig built
  have queued := congrArg (·.outbox.queued) h.calls
  have sent := @Store.outbox_performAll made m.operations (by rw [outbox]; rfl)
  rw [sent, outbox] at queued
  rw [Store.sendsAll_eq]
  exact queued

/-- The store, put together from the operations on the one it began as and from
what is left of the queue. -/
theorem Tallied.store_eq (h : Tallied made heard m) :
    m.session.store = { made.performAll m.operations with outbox.queued := m.queue } := by
  rw [← h.calls]
  rfl

/-- Where no call waits and some brought settings, the last to do so brought
the store's. -/
theorem Tallied.lastConfigured_eq_wire (h : Tallied made heard m)
    (built : Store.ofConfig config .empty = .ok made) (honest : ∀ op ∈ m.operations, op.Honest)
    (empty : m.queue = []) {c : Wire.Config Float}
    (sent : .setConfig c ∈ made.sendsAll m.operations) :
    ∃ a, lastConfigured heard = some a ∧ a.config? = some m.session.store.wire := by
  have heardAll := h.calls_eq built
  rw [empty, List.append_nil] at heardAll
  have mirrored := Store.mirrored_performAll honest (Store.mirrored_nil made)
  rw [List.nil_append, ← Store.sendsAll_eq] at mirrored
  have same : (made.performAll m.operations).wire = m.session.store.wire := by
    rw [← h.calls]
    rfl
  have brought := config?_lastConfigured heard
  rw [heardAll, mirrored.getLast?_configs sent, same] at brought
  exact Option.bind_eq_some_iff.mp brought

-- =============================================================== steps

variable [SharedEngine ε]

/-- A tap hears nothing of polls and frames. -/
theorem heard_turn {s : Session (Tapped ε)} {t : Turn (Tapped ε)} (finds : t.Finds s.engine) :
    (s.turn t).engine.heard = s.engine.heard := by
  cases t with
  | frame => rfl
  | poll found now =>
      refine Eq.trans ?_ finds.2
      show (Session.poll { s with engine := found } now).1.engine.heard = found.heard
      unfold Session.poll
      dsimp only
      split <;> rfl

/-- Whatever happens next, the calls heard and the calls waiting still are the
calls made. -/
theorem tallied_step {t t' : Machine (Tapped ε)} (step : Step t t')
    (h : Tallied made t.session.engine.heard t) : Tallied made t'.session.engine.heard t' := by
  obtain ⟨requests, calls, asked, waiting⟩ := h
  cases step with
  | engine moves =>
      refine ⟨requests, ?_, asked, waiting⟩
      rw [← moves.2] at calls
      exact calls
  | readLog => exact ⟨requests, calls, asked, waiting⟩
  | push idle | call idle => exact ⟨requests, calls_perform calls _, Or.inl idle, waiting⟩
  | mount => exact ⟨rfl, calls, Or.inr ⟨t.operations, (List.append_nil _).symm⟩, Or.inl rfl⟩
  | send running r =>
      refine ⟨?_, calls, asked, Or.inl running⟩
      rw [← List.append_assoc, requests]
  | @handle busy r rest first =>
      -- the request moves on in one queue, and its calls join the other
      refine ⟨?_, ?_, Or.inr ?_, busy.imp_right Or.inl⟩
      · show t.handled ++ [r] ++ rest = t.sent
        rw [← requests, first, List.append_assoc]
        rfl
      · rw [store_handle]
        have kept : (t.handle r rest).session.engine = t.session.engine :=
          t.session.engine_handle r
        rw [kept]
        exact calls_perform calls r.operation
      · obtain ⟨earlier, asked⟩ := asked.resolve_left fun idle =>
          busy.elim (fun running => nomatch running.symm.trans idle)
            fun stopping => nomatch stopping.symm.trans idle
        refine ⟨earlier, ?_⟩
        show t.operations ++ [r.operation] = earlier ++ (t.handled ++ [r]).map Request.operation
        rw [asked, List.map_append, List.append_assoc]
        rfl
  | @deliver busy c rest first =>
      -- the first of the calls that wait becomes the last that was heard
      refine ⟨requests, ?_, asked, waiting⟩
      have heard : (t.deliver c rest).session.engine.heard
          = t.session.engine.heard ++ [⟨c, (AudioEngine.call c t.session.engine.engine).fault?⟩] :=
        congrArg (·.engine.heard)
          (Session.deliver_eq { t.session with store.outbox.queued := rest } c)
      rw [heard, store_deliver, List.map_append]
      refine Eq.trans ?_ calls
      unfold Store.behind
      rw [show t.session.store.outbox.queued = c :: rest from first]
      dsimp only
      rw [List.append_assoc]
      rfl
  | turn running turn finds =>
      refine ⟨requests, ?_, asked, Or.inl running⟩
      show (t.session.turn turn).store.behind ((t.session.turn turn).engine.heard.map _) = _
      rw [heard_turn finds, Session.store_turn]
      exact calls
  | cancel running =>
      have mounted := asked.resolve_left fun idle => nomatch running.symm.trans idle
      exact ⟨requests, calls, Or.inr mounted, Or.inr (Or.inl rfl)⟩
  | flush stopping none =>
      have mounted := asked.resolve_left fun idle => nomatch stopping.symm.trans idle
      exact ⟨requests, calls, Or.inr mounted, Or.inr (Or.inr none)⟩
  | finish flushing =>
      have worked : t.requests = [] := Tallied.worked ⟨requests, calls, asked, waiting⟩ flushing
      exact ⟨requests, calls, Or.inl rfl, Or.inr (Or.inr worked)⟩

-- ================================================================ runs

/-- On any run the calls that a tap hears account for the machine that is
reached. -/
theorem Hears.tallied (hears : Hears (start made past engine timing) m heard) :
    Tallied made heard m := by
  obtain ⟨requests, calls, asked, waiting⟩ :=
    Reaches.keeps (P := fun t : Machine (Tapped ε) => Tallied made t.session.engine.heard t)
      hears tallied_step tallied_start
  exact ⟨requests, calls, asked, waiting⟩

/-- A run returns when both queues have been worked off. -/
theorem Tallied.returned (h : Tallied made heard m)
    (built : Store.ofConfig config .empty = .ok made) (step : Step m m')
    (flushing : m.phase = .flushing) (idle : m'.phase = .idle) :
    m'.requests = [] ∧ m'.queue = [] ∧ m'.handled = m'.sent
      ∧ heard.map (·.call) = made.sendsAll m'.operations := by
  obtain ⟨empty, rfl⟩ := step.returns flushing idle
  have none := h.worked flushing
  have handled := h.requests
  have calls := h.calls_eq built
  rw [none, List.append_nil] at handled
  rw [empty, List.append_nil] at calls
  exact ⟨none, empty, handled, calls⟩

/-- However a session's work is interleaved with what others do, the requests
are handled once and in order, and the store is what its operations, these
among them, make of it; the engine hears the calls that the store sends, once
and in order. A run that returns leaves nothing behind in either queue, and
unmounting is such a run. When no call waits, and if the engine took over the
last settings it heard, then the last it took over are those of the store. -/
theorem requests_and_calls_in_order (built : Store.ofConfig config .empty = .ok made)
    (run : Reaches (start made past engine timing) m) :
    (∃ heard, Hears (start made past engine timing) m heard)
      ∧ ∀ heard, Hears (start made past engine timing) m heard →
        m.handled ++ m.requests = m.sent
          ∧ (m.phase = .idle
            ∨ ∃ earlier, m.operations = earlier ++ m.handled.map Request.operation)
          ∧ m.session.store = { made.performAll m.operations with outbox.queued := m.queue }
          ∧ heard.map (·.call) ++ m.queue = made.sendsAll m.operations
          ∧ (∀ m', Step m m' → m.phase = .flushing → m'.phase = .idle →
            m'.requests = [] ∧ m'.queue = [] ∧ m'.handled = m'.sent
              ∧ heard.map (·.call) = made.sendsAll m'.operations)
          ∧ (m.phase = .running → ∀ clock now, ∃ m' heard', Reaches m m'
            ∧ Hears (start made past engine timing) m' heard' ∧ m'.phase = .idle
            ∧ m'.session = ((⟨m.session, m.requests, clock⟩ : Mounted ε).unmount now).1
            ∧ m'.requests = [] ∧ m'.queue = [] ∧ m'.handled = m.sent
            ∧ heard'.map (·.call) = made.sendsAll m'.operations)
          ∧ ((∀ op ∈ m.operations, op.Honest) → m.queue = [] →
            (∃ c, .setConfig c ∈ made.sendsAll m.operations) →
            (∀ a, lastConfigured heard = some a → a.fault? = none) →
            lastAccepted heard = some (Wire.Config.ofBackend m.session.store.config.backend)) := by
  refine ⟨run.tap [], fun heard hears => ?_⟩
  have here := hears.tallied
  refine ⟨here.requests, here.asked, here.store_eq, here.calls_eq built,
    fun m' step flushing idle => here.returned built step flushing idle, ?_, ?_⟩
  · intro running clock now
    obtain ⟨m₁, m', worked, finished, flushing, idle, unmounted, sent⟩ :=
      returns_unmount ⟨running, rfl, rfl⟩ (x := ⟨m.session, m.requests, clock⟩) now
    -- nothing more is heard as the run returns
    obtain ⟨heard', tapped⟩ := worked.tap heard
    have hears' : Hears (start made past engine timing) m₁ heard' := Reaches.trans hears tapped
    obtain ⟨none, empty, handled, calls⟩ := hears'.tallied.returned built finished flushing idle
    refine ⟨m', heard', worked.tail finished, ?_, idle, unmounted, none, empty,
      handled.trans sent, calls⟩
    obtain ⟨queue, rfl⟩ := finished.returns flushing idle
    exact Reaches.tail hears' (.finish flushing queue)
  · intro honest empty ⟨c, sent⟩ accepted
    obtain ⟨a, last, brought⟩ := here.lastConfigured_eq_wire built honest empty sent
    rw [lastAccepted_eq last (accepted a last), brought]
    rfl

/-- An engine that refuses the settings when it is first sent them and recovers,
and a cancel that comes while the settings wait a second time and a request
still waits to be handled. -/
theorem requests_and_calls_in_order_cancelled :
    ∃ (m : Machine Recorder) (heard : List Attempt),
      Store.ofConfig .standard .empty = .ok .standard
        ∧ Reaches (start .standard [.push, .push] { Recorder.script with failing := true }
          ⟨16000000, 23000000, 64⟩) m
        ∧ Hears (start .standard [.push, .push] { Recorder.script with failing := true }
          ⟨16000000, 23000000, 64⟩) m heard
        ∧ m.phase = .flushing ∧ m.sent = [.resetBeat] ∧ m.handled ++ m.requests = m.sent
        ∧ heard.map (·.call) ++ m.queue = [.setConfig .standard, .setConfig .standard, .resetBeat]
        ∧ heard.map (·.fault?) = [some (.unavailable "script" "set_config"), none, none]
        ∧ m.session.engine.calls = [.setConfig .standard, .resetBeat]
        ∧ m.requests = [] ∧ m.queue = []
        ∧ lastAccepted heard = some (Wire.Config.ofBackend m.session.store.config.backend) := by
  let failing : Recorder := { Recorder.script with failing := true }
  let m₀ : Machine Recorder := start .standard [.push, .push] failing ⟨16000000, 23000000, 64⟩
  have refused := ((Reaches.refl (m := m₀)).tail (.mount rfl)).tail (.deliver (Or.inl rfl) rfl)
  have recovered := refused.tail (@Step.engine _ _ _ .script rfl)
  have cancelled := (recovered.tail (.send rfl .resetBeat)).tail (.cancel rfl)
  have handled := (cancelled.tail (.handle (Or.inr rfl) rfl)).tail (.flush rfl rfl)
  have run := (handled.tail (.deliver (Or.inr rfl) rfl)).tail (.deliver (Or.inr rfl) rfl)
  -- the same run with a tap on the engine
  have refused' := ((Reaches.refl (m := m₀.tap [])).tail (.mount rfl)).tail
    (.deliver (Or.inl rfl) rfl)
  have recovered' := refused'.tail
    (@Step.engine _ _ _ ⟨.script, [⟨.setConfig .standard, some _⟩]⟩ ⟨rfl, rfl⟩)
  have cancelled' := (recovered'.tail (.send rfl .resetBeat)).tail (.cancel rfl)
  have handled' := (cancelled'.tail (.handle (Or.inr rfl) rfl)).tail (.flush rfl rfl)
  have hears := (handled'.tail (.deliver (Or.inr rfl) rfl)).tail (.deliver (Or.inr rfl) rfl)
  obtain ⟨-, accounts⟩ := requests_and_calls_in_order Store.ofConfig_standard run
  obtain ⟨requests, -, -, calls, returned, -, accepted⟩ := accounts
    [⟨.setConfig .standard, some (.unavailable "script" "set_config")⟩,
      ⟨.setConfig .standard, none⟩, ⟨.resetBeat, none⟩] hears
  obtain ⟨none, empty, -, -⟩ := returned _ (.finish rfl rfl) rfl rfl
  have honest : ∀ op ∈ ([.push, .push, .send .resetBeat] : List Operation), op.Honest := by
    intro op member c handed
    simp only [List.mem_cons, List.not_mem_nil, or_false] at member
    rcases member with rfl | rfl | rfl <;> cases handed
    rfl
  refine ⟨_, _, Store.ofConfig_standard, run, hears, rfl, rfl, requests, calls, rfl, rfl, none,
    empty, accepted honest rfl ⟨_, List.mem_cons_self⟩ ?_⟩
  intro a last
  cases last
  rfl

end Machine

end Metrograph
