/-
Reading rhythm notation into a tree.

A `Reader` looks at the text from a place on. It answers with what it read
and the place after it, or with nothing; in both cases it hands on what
was expected on the way (`Rhythm/Attempts.lean`). Choices are ordered and
repetition takes all it can get. Blanks (space and tab) may stand between
the parts of a pattern, of a group and of a list of weights, and nowhere
else.
-/
import Metrograph.Rhythm.Pattern
import Metrograph.Rhythm.Attempts

namespace Metrograph.Rhythm

/-- A place in a text: how many characters lie before it and which follow. -/
structure Place where
  offset : Nat
  rest : List Char

/-- What a reader comes to. -/
structure Reading (β : Type) where
  /-- What was read and where it ends. -/
  result : Option (β × Place)
  attempts : Attempts

/-- A reader goes on from a place and keeps the attempts made so far. -/
def Reader (β : Type) : Type := Place → Attempts → Reading β

namespace Reader

variable {β γ : Type}

-- ========================================================= combinators

/-- Reads nothing. -/
protected def pure (x : β) : Reader β := fun place a => ⟨some (x, place), a⟩

/-- Reads one thing after another; fails as a whole. -/
protected def bind (r : Reader β) (next : β → Reader γ) : Reader γ := fun place a =>
  match r place a with
  | ⟨none, a⟩ => ⟨none, a⟩
  | ⟨some (x, after), a⟩ => next x after a

instance : Monad Reader where
  pure := Reader.pure
  bind := Reader.bind

/-- Reads `first`, or where that fails, from the same place, `second`. -/
def either (first second : Reader β) : Reader β := fun place a =>
  match first place a with
  | ⟨none, a⟩ => second place a
  | done => done

/-- Reads something or nothing. -/
def optional (r : Reader β) : Reader (Option β) := fun place a =>
  match r place a with
  | ⟨none, a⟩ => ⟨some (none, place), a⟩
  | ⟨some (x, after), a⟩ => ⟨some (some x, after), a⟩

/-- Reads at most `limit` things one after another, as many as there are. -/
def upTo (r : Reader β) : Nat → Reader (List β)
  | 0 => Reader.pure []
  | limit + 1 => fun place a =>
    match r place a with
    | ⟨none, a⟩ => ⟨some ([], place), a⟩
    | ⟨some (x, after), a⟩ =>
      match upTo r limit after a with
      | ⟨none, a⟩ => ⟨none, a⟩
      | ⟨some (xs, last), a⟩ => ⟨some (x :: xs, last), a⟩

/-- Reads as many things as there are. A text has no more things in it than
characters; the one beyond them is where the repetition ends. -/
def repeated (r : Reader β) : Reader (List β) := fun place a =>
  upTo r (place.rest.length + 1) place a

/-- Reads a named part, whose failure is recorded. -/
def part (kind : Part) (r : Reader β) : Reader β := fun place a =>
  match r place a with
  | ⟨none, after⟩ => ⟨none, after.fail kind place.offset (a.countAt place.offset)⟩
  | done => done

-- ============================================================== tokens

/-- Reads one character. -/
def mark (c : Char) : Reader Unit := fun place a =>
  match place.rest with
  | d :: rest => if d = c then ⟨some ((), ⟨place.offset + 1, rest⟩), a⟩ else ⟨none, a⟩
  | [] => ⟨none, a⟩

def isBlank (c : Char) : Bool := c == ' ' || c == '\t'

/-- Skips spaces and tabs. -/
def blanks : Reader Unit := fun place a =>
  let skipped := place.rest.takeWhile isBlank
  ⟨some ((), ⟨place.offset + skipped.length, place.rest.dropWhile isBlank⟩), a⟩

/-- Reads what `scan` takes off the text; its characters are counted by
`chars`. -/
def token (scan : List Char → Option (β × List Char)) (chars : β → List Char) : Reader β :=
  fun place a =>
    match scan place.rest with
    | none => ⟨none, a⟩
    | some (x, rest) => ⟨some (x, ⟨place.offset + (chars x).length, rest⟩), a⟩

/-- Reads the end of the text. -/
def atEnd : Reader Unit := fun place a =>
  if place.rest = [] then ⟨some ((), place), a⟩ else ⟨none, a⟩

end Reader

-- ============================================================ scanners

/-- Takes the digits off a text, at least one. -/
def scanDigits (cs : List Char) : Option (List Char × List Char) :=
  let digits := cs.takeWhile Char.isDigit
  if digits = [] then none else some (digits, cs.dropWhile Char.isDigit)

/-- Takes a number off a text: digits with perhaps a point and more digits,
or a point and digits. -/
def Numeral.scan (cs : List Char) : Option (Numeral × List Char) :=
  match scanDigits cs, cs with
  | some (whole, '.' :: rest), _ =>
    some (⟨whole, some (rest.takeWhile Char.isDigit)⟩, rest.dropWhile Char.isDigit)
  | some (whole, rest), _ => some (⟨whole, none⟩, rest)
  | none, '.' :: rest =>
    (scanDigits rest).map fun (digits, after) => (⟨[], some digits⟩, after)
  | none, _ => none

/-- The characters of a sound name after its first letter. -/
def isNameChar (c : Char) : Bool := c.isAlphanum || c == '_' || c == '-'

/-- Takes a sound name off a text: a letter, then letters, digits,
underscores and hyphens. -/
def scanName : List Char → Option (List Char × List Char)
  | [] => none
  | c :: rest =>
    if c.isAlpha then some (c :: rest.takeWhile isNameChar, rest.dropWhile isNameChar) else none

-- ============================================================= grammar

namespace Grammar

open Reader

def weight : Reader Numeral := part .weight (token Numeral.scan Numeral.chars)

def span : Reader Numeral := part .span (token Numeral.scan Numeral.chars)

/-- The name of a sound, as one token. -/
def name : Reader (List Char) := part .name (token scanName id)

def count : Reader Division :=
  part .count do
    let digits ← token scanDigits id
    return .count digits

/-- A tilde and perhaps the weight of the silence. -/
def rest : Reader Step :=
  part .rest do
    mark '~'
    let w ← optional weight
    return .rest w

def accent : Reader Unit := part .accent (mark '!')

def sound : Reader (List Char) :=
  part .sound do
    mark '@'
    name

/-- A weight, perhaps with an accent before it and a sound after it. -/
def hit : Reader Step :=
  part .hit do
    let accented ← optional accent
    let w ← weight
    let s ← optional sound
    return .hit ⟨accented.isSome, w, s⟩

def step : Reader Step := part .step (either rest hit)

/-- A further step of a list, after blanks and perhaps a comma. -/
def nextStep : Reader Step := do
  blanks
  let _ ← optional (mark ',')
  blanks
  step

def weights : Reader Division :=
  part .weights do
    mark '['
    blanks
    let first ← step
    let others ← repeated nextStep
    blanks
    mark ']'
    return .weights first others

/-- A colon and the span after it. -/
def spanMark : Reader Numeral := do
  mark ':'
  blanks
  span

def group : Reader Group :=
  part .group do
    let division ← either weights count
    blanks
    let s ← optional spanMark
    return ⟨division, s⟩

/-- A further group, after a bar. -/
def nextGroup : Reader Group := do
  blanks
  mark '|'
  blanks
  group

def endOfText : Reader Unit := part .endOfText atEnd

def pattern : Reader Pattern :=
  part .pattern do
    blanks
    let first ← group
    let others ← repeated nextGroup
    blanks
    endOfText
    return ⟨first, others⟩

end Grammar

/-- Reads a whole text as a pattern. -/
def read (cs : List Char) : Reading Pattern := Grammar.pattern ⟨0, cs⟩ Attempts.none

end Metrograph.Rhythm
