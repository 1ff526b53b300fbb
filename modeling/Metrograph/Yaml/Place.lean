/-
Places in a YAML text, the classes of its characters, and what may stand
between two tokens: blanks, ends of lines, and comments.

Indentation counts, so a place knows its column and whether only blanks
stand before it on its line. A tab is a blank, but it may not take part in
the indentation of a block, unless nothing else follows on its line.
-/
namespace Metrograph.Yaml

-- ========================================================== characters

/-- A blank within a line. -/
def isBlank (c : Char) : Bool := c == ' ' || c == '\t'

/-- A blank or the end of a line. -/
def isSpace (c : Char) : Bool := isBlank c || c == '\n'

/-- The marks of lists and tables written in brackets. -/
def isFlowMark (c : Char) : Bool := [',', '[', ']', '\x7b', '\x7d'].contains c

/-- Whether a text goes on with a blank, with the end of a line, or not at
all. -/
def endsToken : List Char → Bool
  | [] => true
  | c :: _ => isSpace c

/-- Whether a text is over or goes on with the end of a line. -/
def endsLine : List Char → Bool
  | [] => true
  | c :: _ => c == '\n'

/-- Whether three times the same mark stands at the start of a text, set off
from what follows. -/
def isTriple (mark : Char) (cs : List Char) : Bool :=
  [mark, mark, mark].isPrefixOf cs && endsToken (cs.drop 3)

/-- Whether a text starts with the mark of a document's start or end. -/
def isDocumentMark (cs : List Char) : Bool := isTriple '-' cs || isTriple '.' cs

-- ============================================================== places

/-- Where a character stands. -/
structure Place where
  /-- How many characters stand before it. -/
  index : Nat
  line : Nat
  /-- How many of them are on its line. -/
  column : Nat
  /-- None of those is anything but a blank. -/
  fresh : Bool

namespace Place

/-- The start of a text. -/
def start : Place := ⟨0, 0, 0, true⟩

def afterBlank (p : Place) : Place := { p with index := p.index + 1, column := p.column + 1 }

/-- After a character that is no blank. -/
def afterMark (p : Place) : Place := { p.afterBlank with fresh := false }

def afterBreak (p : Place) : Place := ⟨p.index + 1, p.line + 1, 0, true⟩

/-- Whether a place is further left than some indentation. -/
def isLeftOf (p : Place) (indent : Int) : Bool := decide ((p.column : Int) < indent)

end Place

/-- A place and the text from there on. -/
structure Cursor where
  place : Place
  rest : List Char

namespace Cursor

/-- The place after some marks. -/
def afterMarks : (count : Nat) → Cursor → Cursor
  | 0, c => c
  | _ + 1, ⟨p, []⟩ => ⟨p, []⟩
  | count + 1, ⟨p, _ :: rest⟩ => afterMarks count ⟨p.afterMark, rest⟩

/-- Skips the characters that `skip` accepts, none of which is a blank. -/
def afterAll (skip : Char → Bool) (p : Place) : List Char → Cursor
  | [] => ⟨p, []⟩
  | c :: rest => if skip c then afterAll skip p.afterMark rest else ⟨p, c :: rest⟩

/-- Skips the rest of a line. -/
def afterComment (c : Cursor) : Cursor := afterAll (· != '\n') c.place c.rest

/-- Skips blanks. -/
def afterBlanks (p : Place) : List Char → Cursor
  | [] => ⟨p, []⟩
  | c :: rest => if isBlank c then afterBlanks p.afterBlank rest else ⟨p, c :: rest⟩

end Cursor

-- ============================================================ one line

/-- The blanks after a token. -/
structure Trail where
  tab : Bool
  space : Bool

/-- Skips the blanks after a token and the comment that may follow them; `tabs`
says whether tabs may be among them. A comment right at the token is
refused. -/
def trailFrom (tabs : Bool) (trail : Trail) (p : Place) : List Char → Option (Trail × Cursor)
  | [] => some (trail, ⟨p, []⟩)
  | c :: rest =>
    if c = ' ' then trailFrom tabs { trail with space := true } p.afterBlank rest
    else if c = '\t' ∧ tabs then trailFrom tabs { trail with tab := true } p.afterBlank rest
    else if c ≠ '#' then some (trail, ⟨p, c :: rest⟩)
    else if trail.tab || trail.space then some (trail, Cursor.afterComment ⟨p, c :: rest⟩)
    else none

/-- Skips the blanks and the comment after a token, and tells which blanks
there were. -/
def Cursor.trail (c : Cursor) (tabs : Bool) : Option (Trail × Cursor) :=
  trailFrom tabs ⟨false, false⟩ c.place c.rest

/-- Skips the blanks and the comment after a token. -/
def Cursor.afterTrail (c : Cursor) : Option Cursor := (c.trail true).map (·.2)

-- ========================================================== many lines

/-- What may still stand on a line. -/
inductive Lane where
  | anything
  /-- Blanks and a comment, since a tab stands in the indentation. -/
  | nothing
  /-- Anything: a comment has begun. -/
  | comment

/-- Skips blanks, ends of lines and comments, and tells whether there was an
end of a line. In a block a tab may not stand further left than `indent`,
unless nothing else is on the line. -/
def gapFrom (inBlock : Bool) (indent : Int) :
    Lane → (crossed : Bool) → Place → List Char → Option (Bool × Cursor)
  | _, crossed, p, [] => some (crossed, ⟨p, []⟩)
  | lane, crossed, p, c :: rest =>
    if c = '\n' then gapFrom inBlock indent .anything true p.afterBreak rest
    else match lane with
      | .comment => gapFrom inBlock indent .comment crossed p.afterMark rest
      | lane =>
        if c = '#' then gapFrom inBlock indent .comment crossed p.afterMark rest
        else if isBlank c then
          let barred := c == '\t' && inBlock && p.fresh && p.isLeftOf indent
          gapFrom inBlock indent (if barred then .nothing else lane) crossed p.afterBlank rest
        else match lane with
          | .nothing => none
          | _ => some (crossed, ⟨p, c :: rest⟩)

/-- Skips what stands between two tokens, and tells whether there was an end
of a line. -/
def Cursor.gap (inBlock : Bool) (indent : Int) (c : Cursor) : Option (Bool × Cursor) :=
  gapFrom inBlock indent .anything false c.place c.rest

/-- Skips what may follow the mark of a name written at length: spaces, ends
of lines and comments. -/
def openingFrom (comment spaced crossed : Bool) (p : Place) : List Char → Option (Bool × Cursor)
  | [] => if spaced then some (crossed, ⟨p, []⟩) else none
  | c :: rest =>
    if c = '\n' then openingFrom false true true p.afterBreak rest
    else if comment then openingFrom true spaced crossed p.afterMark rest
    else if c = ' ' then openingFrom false true crossed p.afterBlank rest
    else if c = '#' then openingFrom true spaced crossed p.afterMark rest
    else if spaced ∧ c ≠ '\t' then some (crossed, ⟨p, c :: rest⟩)
    else none

/-- Skips what follows the mark of a name written at length, which is at least
a space or an end of a line, and tells whether there was an end of a line. -/
def Cursor.opening (c : Cursor) : Option (Bool × Cursor) :=
  openingFrom false false false c.place c.rest

end Metrograph.Yaml
