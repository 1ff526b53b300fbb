/-
A tap on the engine: which calls reach it, and what it answers.

A session works with whatever takes calls and polls, so also with an
engine behind a tap (`Tapped`). The tap passes everything on, in both
directions, and notes every call that comes by. What it has heard is
therefore no statement of the session's about itself: a call that is kept
back is not heard, one that is made twice is heard twice.

# A tap changes nothing

Whatever a session does with an engine behind a tap, it does with the
engine (`Session.turn_tap`, `Session.deliver_tap`), and the tap hears
nothing but deliveries. Hence there is a tapped run beside every run
(`Reaches.tap`), and nothing is lost by looking at tapped runs only.
Others hold the engine itself, behind the tap, and are not heard.
-/
import Metrograph.Proofs.Session.Machine

namespace Metrograph

open Config (Operation)
open Engine (AudioEngine Command)

/-- A call that reached the engine, and why it was refused, if it was. -/
structure Attempt where
  call : Command
  fault? : Option Engine.Fault

/-- An engine behind a tap. -/
structure Tapped (ε : Type) where
  engine : ε
  /-- The calls that have come by, oldest first. -/
  heard : List Attempt

variable {ε : Type}

instance [AudioEngine ε] : AudioEngine (Tapped ε) where
  poll now t :=
    let (answer, engine) := AudioEngine.poll now t.engine
    (answer, { t with engine := engine })
  call c t :=
    let reply := AudioEngine.call c t.engine
    ⟨reply.fault?, ⟨reply.engine, t.heard ++ [⟨c, reply.fault?⟩]⟩, reply.notices⟩
  log t := AudioEngine.log t.engine

/-- Others move the engine behind the tap. -/
instance [SharedEngine ε] : SharedEngine (Tapped ε) where
  Moves t t' := SharedEngine.Moves t.engine t'.engine ∧ t'.heard = t.heard
  still t := ⟨SharedEngine.still t.engine, rfl⟩

-- ============================================================= sessions

namespace Session

/-- A session with its engine behind a tap that has heard some calls. -/
def tap (s : Session ε) (heard : List Attempt) : Session (Tapped ε) :=
  ⟨s.store, ⟨s.engine, heard⟩, s.canvas, s.timing, s.hold, s.pending, s.stats⟩

/-- A request is handled as if there were no tap. -/
theorem handle_tap (s : Session ε) (heard : List Attempt) (r : Request) :
    ((s.tap heard).handle r).1 = (s.handle r).1.tap heard := by
  have outcome : (s.tap heard).outcome r = s.outcome r := by cases r <;> rfl
  unfold handle
  rw [outcome]
  dsimp only
  split
  · rfl
  · split <;> rfl
  · rfl
  · rfl

variable [AudioEngine ε]

/-- Of all that a session does, its tap hears the deliveries, one call each. -/
theorem deliver_tap (s : Session ε) (heard : List Attempt) (c : Command) :
    ((s.tap heard).deliver c).1
      = (s.deliver c).1.tap (heard ++ [⟨c, (AudioEngine.call c s.engine).fault?⟩]) := by
  rw [deliver_eq, deliver_eq]
  rfl

end Session

/-- A turn that meets the engine behind a tap. -/
def Turn.tap (heard : List Attempt) : Turn ε → Turn (Tapped ε)
  | .poll engine now => .poll ⟨engine, heard⟩ now
  | .frame => .frame

theorem Session.turn_tap [AudioEngine ε] (s : Session ε) (heard : List Attempt) (t : Turn ε) :
    (s.tap heard).turn (t.tap heard) = (s.turn t).tap heard := by
  cases t with
  | frame => rfl
  | poll engine now =>
      show (poll { s.tap heard with engine := ⟨engine, heard⟩ } now).1
        = (poll { s with engine := engine } now).1.tap heard
      have answer : (AudioEngine.poll now (⟨engine, heard⟩ : Tapped ε)).1
          = (AudioEngine.poll now engine).1 := rfl
      unfold poll
      dsimp only
      rw [answer]
      cases (AudioEngine.poll now engine).1 <;> rfl

-- ============================================================= machines

namespace Machine

/-- A machine with its engine behind a tap that has heard some calls. -/
def tap (m : Machine ε) (heard : List Attempt) : Machine (Tapped ε) :=
  ⟨m.session.tap heard, m.phase, m.requests, m.sent, m.handled, m.operations⟩

theorem handle_tap (m : Machine ε) (heard : List Attempt) (r : Request) (rest : List Request) :
    (m.tap heard).handle r rest = (m.handle r rest).tap heard := by
  unfold handle
  rw [show (m.tap heard).session = m.session.tap heard from rfl, Session.handle_tap]
  rfl

variable [SharedEngine ε] {m m' : Machine ε}

/-- A delivery is heard, with the answer of the engine as it stands. -/
theorem deliver_tap (m : Machine ε) (heard : List Attempt) (c : Command) (rest : List Command) :
    (m.tap heard).deliver c rest
      = (m.deliver c rest).tap
        (heard ++ [⟨c, (AudioEngine.call c m.session.engine).fault?⟩]) := by
  have tapped := Session.deliver_tap { m.session with store.outbox.queued := rest } heard c
  exact congrArg (fun s => ({ m.tap heard with session := s } : Machine (Tapped ε))) tapped

/-- Any step can be taken with a tap on the engine. -/
theorem Step.tap (step : Step m m') (heard : List Attempt) :
    ∃ heard', Step (m.tap heard) (m'.tap heard') := by
  cases step with
  | engine moves => exact ⟨heard, .engine ⟨moves, rfl⟩⟩
  | push idle => exact ⟨heard, .push idle⟩
  | call idle c => exact ⟨heard, Step.call (m := m.tap heard) idle c⟩
  | mount idle => exact ⟨heard, .mount idle⟩
  | send running r => exact ⟨heard, Step.send (m := m.tap heard) running r⟩
  | handle busy first =>
      have handled := Step.handle (m := m.tap heard) busy first
      rw [handle_tap] at handled
      exact ⟨heard, handled⟩
  | deliver busy first =>
      have delivered := Step.deliver (m := m.tap heard) busy first
      rw [deliver_tap] at delivered
      exact ⟨_, delivered⟩
  | turn running t finds =>
      have met : (t.tap heard).Finds (m.tap heard).session.engine := by
        cases t with
        | poll engine now => exact ⟨finds, rfl⟩
        | frame => trivial
      have turned := Step.turn (m := m.tap heard) running (t.tap heard) met
      rw [show (m.tap heard).session = m.session.tap heard from rfl, Session.turn_tap] at turned
      exact ⟨heard, turned⟩
  | readLog running position => exact ⟨heard, Step.readLog (m := m.tap heard) running position⟩
  | cancel running => exact ⟨heard, .cancel running⟩
  | flush stopping none => exact ⟨heard, .flush stopping none⟩
  | finish flushing none => exact ⟨heard, .finish flushing none⟩

/-- Any run can be made with a tap on the engine. -/
theorem Reaches.tap (run : Reaches m m') (heard : List Attempt) :
    ∃ heard', Reaches (m.tap heard) (m'.tap heard') := by
  induction run with
  | refl => exact ⟨heard, .refl⟩
  | tail _ step ih =>
      obtain ⟨heard', run'⟩ := ih
      obtain ⟨heard'', step'⟩ := step.tap heard'
      exact ⟨heard'', run'.tail step'⟩

/-- On some run from one machine to another a tap that is put on the engine first
hears some calls. -/
def Hears (m₀ m : Machine ε) (heard : List Attempt) : Prop := Reaches (m₀.tap []) (m.tap heard)

end Machine

end Metrograph
