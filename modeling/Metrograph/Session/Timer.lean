/-
Timers that come due again and again.

A timer that runs a little late keeps its beat; one that runs much too
late skips the turns it has missed and stays in step with its beat. Either
way its next turn is later than the one it ran for, which is why catching
up comes to an end.
-/
namespace Metrograph

/-- A timer, in nanoseconds. -/
structure Timer where
  period : Nat
  /-- When its next turn is. -/
  due : Nat
  period_pos : 0 < period

namespace Timer

def millisecond : Nat := 1000000

/-- How late a turn may be without any being skipped. -/
def tolerance : Nat := 5 * millisecond

/-- A timer whose first turn is now. No timer runs more often than once in a
millisecond. -/
def start (interval now : Nat) : Timer :=
  ⟨max millisecond interval, now, Nat.lt_of_lt_of_le (by decide) (Nat.le_max_left _ _)⟩

/-- The turn after one that is run now. -/
def nextDue (t : Timer) (now : Nat) : Nat :=
  let late := now - t.due
  if late ≤ tolerance then t.due + t.period else now + t.period - late % t.period

/-- The timer after a turn that is run now. -/
def rearm (t : Timer) (now : Nat) : Timer := { t with due := t.nextDue now }

theorem due_lt_nextDue (t : Timer) (now : Nat) : t.due < t.nextDue now := by
  have hpos := t.period_pos
  have hmod := Nat.mod_lt (now - t.due) hpos
  simp only [nextDue]
  split
  · omega
  · next hlate => omega

/-- Runs all turns that are due by `limit`, and tells what each has to say. -/
def runDue {σ : Type} {β : Type} (work : σ → σ × List β) (now limit : Nat) (t : Timer) (s : σ) :
    Timer × σ × List β :=
  if t.due ≤ limit then
    let (s, said) := work s
    let (t, s, more) := runDue work now limit (t.rearm now) s
    (t, s, said ++ more)
  else (t, s, [])
termination_by limit + 1 - t.due
decreasing_by
  have := t.due_lt_nextDue now
  simp only [rearm]
  omega

end Timer

end Metrograph
