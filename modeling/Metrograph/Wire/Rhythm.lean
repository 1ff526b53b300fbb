/-
A rhythm as the engine receives it, and the running number of its notes.

The engine clicks whenever it crosses a note, and notices that by counting:
`noteIndexAt` numbers the notes of all repetitions in one sequence, and the
number changes exactly where a note lies.
-/
import Metrograph.Rhythm.Loop

namespace Metrograph.Wire

structure Note (α : Type) where
  time : α
  tags : List String

/-- A loop without its text, from a beat to a beat. -/
structure Rhythm (α : Type) where
  notes : Array (Note α)
  start : α
  stop : α

-- ========================================================= bisection

/-- The last place of a window of `size` places from `base` on that the
bisection of `holds` ends at: it halves the window and keeps the upper
half where `holds` is true at its first place. -/
def bisect (holds : Nat → Bool) (base size : Nat) : Nat :=
  if 1 < size then
    let half := size / 2
    bisect holds (if holds (base + half) then base + half else base) (size - half)
  else base
termination_by size
decreasing_by omega

/-- How many places of the first `size` lie before the point where `holds`
turns false. -/
def partitionPoint (holds : Nat → Bool) (size : Nat) : Nat :=
  if size = 0 then 0
  else
    let last := bisect holds 0 size
    if holds last then last + 1 else last

namespace Rhythm

variable {α : Type} [Scalar α]

/-- The engine's form of a compiled loop. -/
def ofLoop (loop : Metrograph.Rhythm.Loop α) : Rhythm α :=
  ⟨(loop.notes.map fun n => ⟨n.time, n.tags⟩).toArray, Scalar.zero, loop.length⟩

/-- Beats from one repetition to the next. -/
def length (r : Rhythm α) : α := r.stop - r.start

/-- Whether the note at a place starts no later than a time within the
loop. -/
def startsBy (r : Rhythm α) (inLoop : α) (place : Nat) : Bool :=
  match r.notes[place]? with
  | some note => decide (note.time ≤ inLoop)
  | none => false

/-- The running number of the last note at or before a beat, all notes of
all earlier repetitions counted; there is none in a rhythm that cannot
loop. -/
def noteIndexAt (r : Rhythm α) (beat : α) : Option Int :=
  if r.notes.size = 0 ∨ ¬ Scalar.isFinite r.length ∨ r.length ≤ Scalar.zero then none
  else if Scalar.isFinite beat then
    let offset := beat - r.start
    let turns := offset / r.length
    let inLoop := offset - Scalar.roundDown turns * r.length
    let passed := partitionPoint (r.startsBy inLoop) r.notes.size
    some (Scalar.overflow α (Scalar.heldFloor turns * r.notes.size + (passed - 1)))
  else none

end Rhythm

end Metrograph.Wire
