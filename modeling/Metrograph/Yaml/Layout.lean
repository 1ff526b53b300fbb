/-
The state of taking a text apart into tokens: what is indented how far,
what stands in brackets, and where a name may have begun.

A name is known as one only by the colon after it. So what could be a name
is remembered with the number of its first token, and the colon puts the
tokens that open a table and a name in front of it. Outside brackets such
a candidate ends with its line.

# Indentation

`indent` is the column of the innermost block, -1 outside all. A block is
closed by what stands further left. Below a name or a dash a value may
still begin anywhere to the right of the block; such a level is no block of
its own and goes when the value turns out to be one.
-/
import Metrograph.Yaml.Token

namespace Metrograph.Yaml

/-- What could be a name. -/
structure Candidate where
  place : Place
  /-- It can be nothing else. -/
  required : Bool
  /-- How many tokens stand before it. -/
  number : Nat

/-- A level of indentation. -/
structure Level where
  /-- The column of the level around it. -/
  outer : Int
  /-- It is a block, which has an end of its own. -/
  block : Bool

/-- The state of taking a text apart. -/
structure Layout where
  cursor : Cursor
  tokens : Array Token
  /-- Whether a name, an entry or a block may begin here. -/
  open? : Bool
  /-- What could be a name, outside brackets and in all those around, from
  the innermost. -/
  candidates : List (Option Candidate)
  indent : Int
  /-- The levels around, from the innermost. -/
  levels : List Level
  /-- Where a colon need not be set off from what follows. -/
  adjacent : Nat
  /-- Tables have been opened in brackets, or names written at length. -/
  explicit : Bool
  /-- The last colon opened a table within a list in brackets. -/
  paired : Bool
  /-- How many tokens there were after the last anchor or tag at the start of a
  line. -/
  margin? : Option Nat

namespace Layout

/-- The start of a text. -/
def start (text : List Char) : Layout where
  cursor := ⟨.start, text⟩
  tokens := #[]
  open? := true
  candidates := [none]
  indent := -1
  levels := []
  adjacent := 0
  explicit := false
  paired := false
  margin? := none

/-- How many brackets are open. -/
def depth (s : Layout) : Nat := s.candidates.length - 1

/-- Whether brackets are open. -/
def inFlow (s : Layout) : Bool := decide (0 < s.depth)

def push (s : Layout) (t : Token) : Layout := { s with tokens := s.tokens.push t }

/-- Puts a token in front of all but the first `number`. -/
def insert (s : Layout) (number : Nat) (t : Token) : Layout :=
  { s with tokens := s.tokens.insertIdxIfInBounds number t }

def moveTo (s : Layout) (c : Cursor) : Layout := { s with cursor := c }

/-- Skips some marks. -/
def skip (s : Layout) (count : Nat) : Layout := s.moveTo (s.cursor.afterMarks count)

/-- Skips the blanks and the comment after a token. -/
def skipTrail (s : Layout) : Option Layout := s.cursor.afterTrail.map s.moveTo

/-- Skips what stands between two tokens. Outside brackets anything may begin
on a new line. -/
def skipGap (s : Layout) : Option Layout :=
  (s.cursor.gap (!s.levels.isEmpty) s.indent).map fun (crossed, c) =>
    { s with cursor := c, open? := s.open? || (crossed && !s.inFlow) }

-- ========================================================= indentation

/-- Closes the levels further right than a column. -/
def closeFrom (tokens : Array Token) (indent column : Int) :
    List Level → Array Token × Int × List Level
  | [] => (tokens, indent, [])
  | level :: outer =>
    if column < indent then
      closeFrom (if level.block then tokens.push .blockEnd else tokens) level.outer column outer
    else (tokens, indent, level :: outer)

/-- Closes the levels further right than a column. In brackets there are none
to close. -/
def close (s : Layout) (column : Int) : Layout :=
  if s.inFlow then s
  else
    let (tokens, indent, levels) := closeFrom s.tokens s.indent column s.levels
    { s with tokens := tokens, indent := indent, levels := levels }

/-- Leaves the levels that are no blocks, up to the innermost block. -/
def leaveFrom (indent : Int) : List Level → Int × List Level
  | [] => (indent, [])
  | level :: outer => if level.block then (indent, level :: outer) else leaveFrom level.outer outer

/-- Leaves the levels that are no blocks, up to the innermost block. -/
def leave (s : Layout) : Layout :=
  let (indent, levels) := leaveFrom s.indent s.levels
  { s with indent := indent, levels := levels }

/-- Opens a block at a column, if that is further right than the block around
it; the token `t` that opens it goes in front of all tokens but the first
`number`. -/
def openBlock (s : Layout) (column : Int) (number : Nat) (t : Token) : Layout :=
  if s.inFlow then s
  else
    let s := match s.levels with
      | ⟨outer, false⟩ :: levels =>
        if s.indent ≤ column then { s with indent := outer, levels := levels } else s
      | _ => s
    if s.indent < column then
      { s with indent := column, levels := ⟨s.indent, true⟩ :: s.levels }.insert number t
    else s

/-- Opens a level that is no block, one column further right than the block
around it. -/
def indentValue (s : Layout) : Layout :=
  match s.levels with
  | ⟨_, true⟩ :: _ =>
    if s.inFlow then s
    else { s with indent := s.indent + 1, levels := ⟨s.indent, false⟩ :: s.levels }
  | _ => s

-- =============================================================== names

/-- Remembers that a name may begin here. In a block it must, where its names
stand. -/
def mayBegin (s : Layout) : Layout :=
  if s.open? then
    let place := s.cursor.place
    let required := !s.inFlow && s.indent == place.column && s.levels.head?.any (·.block)
    { s with candidates := some ⟨place, required, s.tokens.size⟩ :: s.candidates.drop 1 }
  else s

/-- Forgets what could have been a name; something that had to be one is
refused. -/
def settle (s : Layout) : Option Layout :=
  match s.candidates with
  | some candidate :: outer =>
    if candidate.required then none else some { s with candidates := none :: outer }
  | _ => some s

/-- Whether a candidate outside brackets is over: it ends with its line, and
after 1024 characters. -/
def isStale (here : Place) (candidate : Candidate) : Bool :=
  decide (candidate.place.line < here.line ∨ candidate.place.index + 1024 < here.index)

/-- Forgets the candidate that is over outside brackets; something that had to
be a name is refused. -/
def expire (s : Layout) : Option Layout :=
  match s.candidates with
  | [some candidate] => if isStale s.cursor.place candidate then s.settle else some s
  | _ => some s

/-- Closes all blocks; nothing may begin here. -/
def closeAll (s : Layout) : Option Layout :=
  (s.close (-1)).settle.map fun s => { s with open? := false }

end Layout

end Metrograph.Yaml
