/-
What a reader of rhythm notation expected where it got stuck.

While a pattern is read, every named part that fails at some place leaves
its name, and only the furthest place counts. A part that fails where it
started replaces what its own parts left there, unless they left exactly
one name, which then says more than the part's own.
-/
namespace Metrograph.Rhythm

/-- The named parts of the notation, in the order in which a message lists
them. -/
inductive Part where
  | endOfText
  | pattern
  | group
  | count
  | weights
  | step
  | rest
  | hit
  | accent
  | sound
  | name
  | weight
  | span
  deriving DecidableEq

namespace Part

def all : List Part :=
  [.endOfText, .pattern, .group, .count, .weights, .step, .rest, .hit, .accent, .sound, .name,
   .weight, .span]

def label : Part → String
  | .endOfText => "EOI"
  | .pattern => "pattern"
  | .group => "group"
  | .count => "count"
  | .weights => "weights"
  | .step => "step"
  | .rest => "rest"
  | .hit => "hit"
  | .accent => "accent"
  | .sound => "sound"
  | .name => "name"
  | .weight => "weight"
  | .span => "span"

end Part

/-- The furthest place at which parts have failed, and their names in the
order in which they did. -/
structure Attempts where
  /-- Characters before the place. -/
  place : Nat
  parts : List Part
  deriving DecidableEq

namespace Attempts

/-- Nothing has failed yet. -/
def none : Attempts := ⟨0, []⟩

/-- How many names are left at a place. -/
def countAt (a : Attempts) (place : Nat) : Nat :=
  if a.place = place then a.parts.length else 0

/-- Records that `part`, begun at `place` when `before` names were left
there, has failed. -/
def fail (a : Attempts) (part : Part) (place before : Nat) : Attempts :=
  if a.countAt place = before + 1 then a
  else if place < a.place then a
  else if place = a.place then { a with parts := a.parts.take before ++ [part] }
  else ⟨place, [part]⟩

/-- The names left, each once and in the order of a message. -/
def expected (a : Attempts) : List Part := Part.all.filter fun p => a.parts.contains p

end Attempts

end Metrograph.Rhythm
