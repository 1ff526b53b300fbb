/-
Taking a YAML text apart into tokens, one step for each kind of token. Each
step takes at least one character off, so the length of the text bounds
their number.
-/
import Metrograph.Yaml.Layout
import Metrograph.Yaml.Plain
import Metrograph.Yaml.Block

namespace Metrograph.Yaml

namespace Layout

-- ============================================================= brackets

/-- Opens a list or a table in brackets, which may be a name. At most 255 of
them may be open. -/
def openFlow (s : Layout) (t : Token) : Option Layout := do
  let s := s.mayBegin.indentValue
  if 255 ≤ s.depth then none
  else
    let s := { s with
      candidates := none :: s.candidates
      open? := true
      explicit := s.explicit || t == Token.flowTableStart }
    return (← (s.skip 1).skipTrail).push t

/-- Ends the table that a colon opened within a list in brackets. -/
def endPair (s : Layout) : Layout :=
  if s.paired then { s with paired := false, explicit := false }.push .flowTableEnd else s

/-- Closes a list or a table in brackets. -/
def closeFlow (s : Layout) (t : Token) : Option Layout := do
  let s ← s.settle
  let candidates := if s.inFlow then s.candidates.drop 1 else s.candidates
  let s := { s with candidates := candidates, open? := false }
  let s ← (s.endPair.skip 1).skipTrail
  let adjacent := if s.inFlow then s.cursor.place.index else s.adjacent
  return { s with adjacent := adjacent }.push t

/-- Takes the comma between entries in brackets off. -/
def flowEntry (s : Layout) : Option Layout := do
  let s := { ← s.settle with open? := true }
  return (← (s.endPair.skip 1).skipTrail).push .flowEntry

-- =============================================================== blocks

/-- Takes the dash of an entry off. A tab may not stand between two dashes, and
a list within a block not at the start of a line after an anchor or a tag
that stands there too. -/
def blockEntry (s : Layout) : Option Layout :=
  let column := s.cursor.place.column
  let misplaced := column == 0 && s.margin? == some s.tokens.size && decide (-1 < s.indent)
  if s.inFlow || !s.open? || misplaced then none
  else do
    let s := (s.skip 1).openBlock column s.tokens.size .blockListStart
    let (trail, after) ← s.cursor.trail true
    if trail.tab && after.rest.head? == some '-' && endsToken (after.rest.drop 1) then none
    else
      let breaks := after.rest.head?.any fun c => c == '\n' || isFlowMark c
      let s := s.moveTo after
      let s ← (if breaks then s.indentValue else s).settle
      return { s with open? := true }.push .blockEntry

/-- Takes the mark of a name written at length off. -/
def nameMark (s : Layout) : Option Layout := do
  let column := s.cursor.place.column
  if !s.inFlow && !s.open? then none
  else
    let s := if s.inFlow then { s with explicit := true }
      else s.openBlock column s.tokens.size .blockTableStart
    let s ← s.settle
    let (_, after) ← (s.skip 1).cursor.opening
    return { s with cursor := after, open? := !s.inFlow }.push .name

/-- Takes the blanks after a colon off that begin with a tab: with nothing but
tabs, no list, number or word may follow. -/
def skipTab (s : Layout) : Option Layout := do
  if s.cursor.rest.head? ≠ some '\t' then return s
  else
    let (trail, after) ← s.cursor.trail true
    let begins := after.rest.head?.any fun c => c == '-' || c == '_' || c.isAlphanum
    if !trail.space && begins then none else return s.moveTo after

/-- Takes the colon between a name and its value off. What could be a name is
one; otherwise the name is written at length or left out. A colon within a
list in brackets makes a table of what is around it. -/
def valueMark (s : Layout) : Option Layout := do
  let place := s.cursor.place
  let s ← { s with paired := s.inFlow && !s.explicit }.skip 1 |>.skipTab
  match s.candidates with
  | some candidate :: outer =>
    if s.paired && decide (candidate.place.line < place.line) then none
    else
      let s := s.insert candidate.number .name
      let s := if s.paired then s.insert candidate.number .flowTableStart else s
      let s := s.openBlock candidate.place.column candidate.number .blockTableStart
      return { s.indentValue with candidates := none :: outer, open? := false }.push .value
  | _ =>
    if !s.inFlow && !s.open? then none
    else
      let s := if s.paired then s.push .flowTableStart else s
      let s := s.openBlock place.column s.tokens.size .blockTableStart
      return { s.indentValue with open? := !s.inFlow }.push .value

-- ============================================================== scalars

/-- Remembers that a name may begin here; nothing else may begin after it. -/
def begin (s : Layout) : Layout := { s.mayBegin with open? := false }

/-- Takes a reference to an anchor off. -/
def referenceMark (s : Layout) : Option Layout := do
  let (name, after) ← anchorName s.cursor
  return (s.begin.moveTo after).push (.reference name)

/-- Adds an anchor or a tag that ends at some place. -/
def addProperty (s : Layout) (t : Token) (after : Cursor) : Layout :=
  let next := (s.begin.moveTo after).push t
  if s.cursor.place.column = 0 then { next with margin? := some next.tokens.size } else next

/-- Takes an anchor off. -/
def anchorMark (s : Layout) : Option Layout := do
  let (name, after) ← anchorName s.cursor
  return s.addProperty (.anchor name) after

/-- Takes a tag off. -/
def tagMark (s : Layout) : Option Layout := do
  let (token, after) ← tagToken s.inFlow s.cursor
  return s.addProperty token after

/-- Takes a text in quotation marks off. A colon after it need not be set off
from what follows. -/
def quotedScalar (s : Layout) : Option Layout := do
  let s := s.begin
  let (text, after) ← quoted s.inFlow s.indent s.cursor
  let s ← (s.moveTo after).skipGap
  return { s with adjacent := s.cursor.place.index }.push (.scalar false text)

def plainScalar (s : Layout) : Option Layout := do
  let s := s.begin.leave
  let (text, after) ← plain s.inFlow s.indent s.cursor
  return { s with cursor := after, open? := after.place.fresh }.push (.scalar true text)

def blockScalar (s : Layout) (fold : Bool) : Option Layout := do
  let s := { s.mayBegin with open? := true }.leave
  let (text, after) ← block fold s.indent s.cursor
  return (s.moveTo after).push (.scalar false text)

-- ============================================================ documents

/-- Takes a directive off. -/
def directiveLine (s : Layout) : Option Layout := do
  let s ← s.closeAll
  let (token, after) ← directive s.cursor
  return (s.moveTo after).push token

/-- Takes the mark before a document off. -/
def startMark (s : Layout) : Option Layout := do
  return ((← s.closeAll).skip 3).push .documentStart

/-- Takes the mark after a document off, which stands alone on its line. -/
def endMark (s : Layout) : Option Layout := do
  let s ← ((← s.closeAll).skip 3).push .documentEnd |>.skipTrail
  if endsLine s.cursor.rest then return s else none

/-- Ends the text. What had to be a name is refused. -/
def finish (s : Layout) : Option (Array Token) :=
  if s.candidates.any fun candidate => candidate.any (·.required) then none
  else some (s.close (-1)).tokens

-- ================================================================ steps

/-- Whether the colon here stands between a name and its value. In brackets it
need not be set off from their marks, and from nothing after a text in
quotation marks or brackets. -/
def isValueMark (s : Layout) (rest : List Char) : Bool :=
  endsToken rest ||
    (s.inFlow && (rest.head?.any isFlowMark || s.cursor.place.index == s.adjacent))

/-- Takes the token that begins with some character off. -/
def token (s : Layout) (c : Char) (rest : List Char) : Option Layout :=
  match c with
  | '[' => s.openFlow .flowListStart
  | '\x7b' => s.openFlow .flowTableStart
  | ']' => s.closeFlow .flowListEnd
  | '\x7d' => s.closeFlow .flowTableEnd
  | ',' => s.flowEntry
  | '-' => if endsToken rest then s.blockEntry else s.plainScalar
  | '?' => if endsToken rest then s.nameMark else s.plainScalar
  | ':' => if s.isValueMark rest then s.valueMark else s.plainScalar
  | '*' => s.referenceMark
  | '&' => s.anchorMark
  | '!' => s.tagMark
  | '|' => if s.inFlow then s.plainScalar else s.blockScalar false
  | '>' => if s.inFlow then s.plainScalar else s.blockScalar true
  | '\'' => s.quotedScalar
  | '"' => s.quotedScalar
  | '%' => none
  | '@' => none
  | '\x60' => none
  | _ => s.plainScalar

/-- Takes the next token off. It may not stand further left than the block
around it. -/
def step (s : Layout) (c : Char) (rest : List Char) : Option Layout :=
  if s.cursor.place.column = 0 ∧ c = '%' then s.directiveLine
  else if s.cursor.place.column = 0 ∧ isTriple '-' (c :: rest) then s.startMark
  else if s.cursor.place.column = 0 ∧ isTriple '.' (c :: rest) then s.endMark
  else if s.cursor.place.isLeftOf s.indent then none
  else s.token c rest

/-- Takes all tokens off. -/
def run : (fuel : Nat) → Layout → Option (Array Token)
  | 0, _ => none
  | fuel + 1, s => do
    let s := (← (← s.skipGap).expire)
    let s := s.close s.cursor.place.column
    match s.cursor.rest with
    | [] => s.finish
    | c :: rest => run fuel (← s.step c rest)

end Layout

/-- The tokens of a text. -/
def tokensOf (text : List Char) : Option (List Token) :=
  (Layout.run (text.length + 1) (.start text)).map Array.toList

end Metrograph.Yaml
