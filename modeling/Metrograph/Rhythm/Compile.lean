/-
From the text of a rhythm to its loop.

A text is read into a tree, the groups are measured from left to right (in
each the count or the steps before the span), and the notes are placed:
step `i` of a group starts at the beats of the earlier groups plus the
group's span times the share of the weights before it. The same text
always compiles to the same loop.
-/
import Metrograph.Rhythm.Reader
import Metrograph.Rhythm.Fault
import Metrograph.Rhythm.Loop

namespace Metrograph.Rhythm

variable {α : Type} [Scalar α]

/-- The shortest span of a group: a sixty-fourth of a beat. -/
def minSpan : α := Scalar.ofDecimal 15625 6

-- =========================================================== measuring

/-- A step with its weight known. A rest has no hit. -/
structure Segment (α : Type) where
  weight : α
  /-- Accent and sound of a step that sounds. -/
  hit : Option (Bool × Option String)

/-- A group with its numbers known. -/
structure TimedGroup (α : Type) where
  segments : List (Segment α)
  span : α

/-- The value of a number that has to be positive and finite. -/
def positive (what : Measure) (n : Numeral) : Except Fault α :=
  let x : α := n.value
  if Scalar.isFinite x ∧ Scalar.zero < x then .ok x else .error (.notPositive what n.text)

/-- A step with its weight checked; a bare rest weighs one. -/
def Step.measure : Step → Except Fault (Segment α)
  | .rest none => .ok ⟨Scalar.one, none⟩
  | .rest (some weight) => do return ⟨← positive .weight weight, none⟩
  | .hit h => do
    return ⟨← positive .weight h.weight, some (h.accent, h.sound.map String.ofList)⟩

/-- The segments of a division, with a count checked against its bounds. -/
def Division.measure : Division → Except Fault (List (Segment α))
  | .count digits =>
    let n := Decimal.natOfDigits digits
    if 1 ≤ n ∧ n ≤ maxCount then
      .ok (List.replicate n ⟨Scalar.one, some (false, none)⟩)
    else .error (.count (String.ofList digits))
  | .weights first others => (first :: others).mapM Step.measure

/-- The beats a group covers. -/
def measureSpan : Option Numeral → Except Fault α
  | none => .ok Scalar.one
  | some n => do
    let span ← positive .span n
    if span < minSpan then .error (.spanTooShort n.text) else .ok span

def Group.measure (g : Group) : Except Fault (TimedGroup α) := do
  let segments ← g.division.measure
  let span ← measureSpan g.span
  return ⟨segments, span⟩

-- ============================================================= placing

/-- The sum of the weights of a group. -/
def TimedGroup.totalWeight (g : TimedGroup α) : α :=
  g.segments.foldl (fun total s => total + s.weight) Scalar.zero

/-- The notes of the segments of a group that starts at `start`, given the
weight before them and the position of the first. -/
def placeSegments (start span total : α) : α → Position → List (Segment α) → List (Note α)
  | _, _, [] => []
  | elapsed, position, s :: rest =>
    let following := placeSegments start span total (elapsed + s.weight) .subdivision rest
    match s.hit with
    | none => following
    | some (accent, sound) =>
      ⟨start + span * (elapsed / total), position, accent, sound⟩ :: following

/-- The notes of a group that starts at `start`. -/
def TimedGroup.notesFrom (start : α) (position : Position) (g : TimedGroup α) : List (Note α) :=
  placeSegments start g.span g.totalWeight Scalar.zero position g.segments

/-- The notes of groups laid end to end from `start`, and the beat where the
last one ends. -/
def placeGroups : α → Position → List (TimedGroup α) → List (Note α) × α
  | start, _, [] => ([], start)
  | start, position, g :: rest =>
    let (following, stop) := placeGroups (start + g.span) .beat rest
    (g.notesFrom start position ++ following, stop)

-- =========================================================== compiling

/-- The misreading of a text whose reading failed. -/
def misreading (cs : List Char) (a : Attempts) : Misreading :=
  let (line, column) := Misreading.position (cs.take a.place)
  ⟨column, a.expected, (Misreading.lineAt cs line).map String.ofList⟩

/-- Reads a text into its tree. -/
def parse (text : String) : Except Fault Pattern :=
  match read text.toList with
  | ⟨some (pattern, _), _⟩ => .ok pattern
  | ⟨none, attempts⟩ => .error (.unreadable (misreading text.toList attempts))

/-- Compiles the text of a rhythm. -/
def compile (text : String) : Except Fault (Loop α) := do
  let pattern ← parse text
  let groups ← pattern.groups.mapM Group.measure
  let (notes, stop) := placeGroups Scalar.zero .downbeat groups
  if notes = [] then .error .noHits
  else if maxNotes < notes.length then .error (.tooManyNotes notes.length)
  else .ok ⟨notes, stop, text⟩

end Metrograph.Rhythm
