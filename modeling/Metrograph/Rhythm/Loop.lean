/-
A compiled rhythm: notes in the order of their times within a loop that
repeats from beat zero in both directions.
-/
import Metrograph.Scalar

namespace Metrograph.Rhythm

-- =============================================================== notes

/-- Where a note stands in its pattern. -/
inductive Position where
  /-- It opens the loop. -/
  | downbeat
  /-- It opens a later group. -/
  | beat
  | subdivision
  deriving DecidableEq

def Position.tag : Position → String
  | .downbeat => "downbeat"
  | .beat => "beat"
  | .subdivision => "subdivision"

def accentTag : String := "accent"

/-- One note of a loop. -/
structure Note (α : Type) where
  /-- Beats from the start of the loop. -/
  time : α
  position : Position
  accent : Bool
  sound : Option String

/-- Puts a text into a sorted list of texts unless it is there. -/
def insertSorted (text : String) : List String → List String
  | [] => [text]
  | other :: rest =>
    if text = other then other :: rest
    else if text < other then text :: other :: rest
    else other :: insertSorted text rest

namespace Note

variable {α : Type}

/-- The tags of a note as they are given: its position, then its accent and
its sound. -/
def givenTags (n : Note α) : List String :=
  n.position.tag :: ((if n.accent then [accentTag] else []) ++ n.sound.toList)

/-- The tags of a note, sorted and each once. A sound may be named like any
other tag. -/
def tags (n : Note α) : List String := n.givenTags.foldr insertSorted []

def hasTag (n : Note α) (tag : String) : Bool := n.tags.contains tag

def isDownbeat (n : Note α) : Bool := n.hasTag Position.downbeat.tag

end Note

-- =============================================================== loops

/-- A repeating loop of notes and the text it was compiled from. -/
structure Loop (α : Type) where
  notes : List (Note α)
  /-- Beats from one repetition to the next. -/
  length : α
  source : String

namespace Loop

variable {α : Type} [Scalar α]

/-- Two even notes over one beat, as `2:1` has them. -/
def standard : Loop α :=
  ⟨[⟨Scalar.zero, .downbeat, false, none⟩, ⟨Scalar.ofDecimal 5 1, .subdivision, false, none⟩],
    Scalar.one, "2:1"⟩

/-- The notes of one repetition that fall in `[start, stop)`, with the beat
of each. -/
def instancesIn (loop : Loop α) (start stop repetition : α) : List (α × Note α) :=
  loop.notes.filterMap fun note =>
    let beat := repetition * loop.length + note.time
    if start ≤ beat ∧ beat < stop then some (beat, note) else none

/-- What has been found so far and the note instances from a repetition on, as
long as repetitions begin before `stop`. There is no answer if they always
do: where numbers are rounded, repetitions may be too many to be told
apart. -/
def instancesFrom (loop : Loop α) (start stop : α) (found : Array (α × Note α)) (repetition : α) :
    Option (Array (α × Note α)) :=
  if repetition * loop.length < stop then
    loop |>.instancesFrom start stop (found ++ loop.instancesIn start stop repetition)
      (repetition + Scalar.one)
  else some found
partial_fixpoint

/-- Every note instance whose beat falls in `[start, stop)`, in the order of
repetitions and notes, unless the repetitions never come to an end. An
unbounded range has none. -/
def occurrences? (loop : Loop α) (start stop : α) : Option (List (α × Note α)) :=
  if Scalar.isFinite start ∧ Scalar.isFinite stop ∧ ¬ stop ≤ start ∧ loop.notes ≠ [] then
    (loop.instancesFrom start stop #[] (Scalar.roundDown (start / loop.length))).map Array.toList
  else some []

/-- Every note instance whose beat falls in `[start, stop)`. Where
`occurrences?` has no answer a run of the program never comes back from here;
what is stated about `occurrences` reads that as a listing without instances. -/
def occurrences (loop : Loop α) (start stop : α) : List (α × Note α) :=
  (loop.occurrences? start stop).getD []

end Loop

end Metrograph.Rhythm
