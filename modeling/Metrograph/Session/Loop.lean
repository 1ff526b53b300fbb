/-
A session that runs: when it does what.

Time stands still while the session works. At one moment it handles all
requests, then delivers all calls, then runs the polls that are due, then
the frames that are due, and then reads the engine's log; a step never
brings about more work for a step before it. Then time moves on to the
next turn of a timer.

A session that is mounted begins at the first moment it is given. When it
is unmounted it still handles every request and delivers every call, but
polls and draws no more.
-/
import Metrograph.Session.Session
import Metrograph.Session.Timer

namespace Metrograph

open Engine (AudioEngine)

/-- What runs while a session is mounted. -/
structure Clockwork where
  frame : Timer
  poll : Timer
  /-- How many events of the engine's log need no reading. -/
  logRead : Nat

/-- A mounted session. -/
structure Mounted (ε : Type) where
  session : Session ε
  /-- What the user asked for, oldest first. -/
  requests : List Request
  /-- None before the session has begun. -/
  clockwork? : Option Clockwork

namespace Session

variable {ε : Type}

def mount (s : Session ε) : Mounted ε := ⟨s, [], none⟩

/-- Repeats a step over a list, and tells what each has to say. -/
def repeatStep {β : Type} (step : Session ε → β → Session ε × List Notice) :
    Session ε → List β → Session ε × List Notice
  | s, [] => (s, [])
  | s, x :: rest =>
    let (s, said) := step s x
    let (s, more) := repeatStep step s rest
    (s, said ++ more)

/-- Handles requests in order. -/
def handleAll (s : Session ε) (requests : List Request) : Session ε × List Notice :=
  repeatStep handle s requests

/-- Delivers all calls that are on their way, in order. -/
def deliverAll [AudioEngine ε] (s : Session ε) : Session ε × List Notice :=
  let calls := s.store.outbox.queued
  repeatStep deliver { s with store.outbox.queued := [] } calls

end Session

namespace Mounted

variable {ε : Type}

/-- Asks something of a session. -/
def send (m : Mounted ε) (r : Request) : Mounted ε := { m with requests := m.requests ++ [r] }

variable [AudioEngine ε]

-- ============================================================= moments

/-- Begins, unless the session has begun: the log is read from here on, and
the first frame and the first poll are due. -/
def begin (m : Mounted ε) (now : Nat) : Clockwork × List Notice :=
  match m.clockwork? with
  | some c => (c, [])
  | none =>
    (⟨.start m.session.timing.frame now, .start m.session.timing.poll now,
      (AudioEngine.log m.session.engine).published⟩, [.mounted])

/-- Does what there is to do at one moment; of the timers, the turns that are
due by `limit`. -/
def settle (m : Mounted ε) (now limit : Nat) : Mounted ε × List Notice :=
  let (c, begun) := m.begin now
  let (s, handled) := m.session.handleAll m.requests
  let (s, delivered) := s.deliverAll
  let (poll, s, polled) := c.poll.runDue (fun s : Session ε => s.poll now) now limit s
  let (frame, s, _) := c.frame.runDue (fun s : Session ε => (s.frame, ([] : List Notice))) now limit s
  let log := AudioEngine.log s.engine
  let (s, read) := s.readLog (log.readFrom c.logRead)
  (⟨s, [], some ⟨frame, poll, log.published⟩⟩, begun ++ handled ++ delivered ++ polled ++ read)

/-- When the next timer is due. -/
def nextTurn (m : Mounted ε) (now : Nat) : Nat :=
  match m.clockwork? with
  | some c => min c.frame.due c.poll.due
  | none => now

/-- Lets time pass from now to a later moment, which itself does not come.
The turns of the timers on the way are at most `fuel`. -/
def runUntil (stop : Nat) : (fuel now : Nat) → Mounted ε → Mounted ε × List Notice
  | 0, _, m => (m, [])
  | fuel + 1, now, m =>
    if now < stop then
      let (m, said) := m.settle now now
      let (m, more) := runUntil stop fuel (m.nextTurn now) m
      (m, said ++ more)
    else (m, [])

/-- Lets a session run for a span of time. Between two moments at which it
works lies at least a nanosecond. -/
def sleep (m : Mounted ε) (now span : Nat) : Mounted ε × List Notice :=
  runUntil (now + span) span now m

/-- Moves on to a later moment at once. Turns that were due before run there,
late; turns due on the way wait for the next moment. -/
def jump (m : Mounted ε) (now span : Nat) : Mounted ε × List Notice :=
  m.settle (now + span) now

/-- Ends the run. What was asked for before is still done. -/
def unmount (m : Mounted ε) (now : Nat) : Session ε × List Notice :=
  let (_, begun) := m.begin now
  let (s, handled) := m.session.handleAll m.requests
  let (s, delivered) := s.deliverAll
  (s, begun ++ handled ++ delivered ++ [.unmounted])

end Mounted

end Metrograph
