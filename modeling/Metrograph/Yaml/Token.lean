/-
The tokens of a YAML text, and those that are names: anchors, references to
them, tags, and the directives before a document.
-/
import Metrograph.Yaml.Quoted

namespace Metrograph.Yaml

inductive Token where
  | documentStart
  | documentEnd
  /-- Says which version of the format a document is written in. -/
  | version
  /-- Says which text a handle of tags stands for. -/
  | handle (name text : String)
  | blockListStart
  | blockTableStart
  | blockEnd
  | flowListStart
  | flowListEnd
  | flowTableStart
  | flowTableEnd
  | blockEntry
  | flowEntry
  | name
  | value
  | reference (anchor : String)
  | anchor (name : String)
  | tag (handle suffix : String)
  /-- A scalar; only a plain one may be other than a text. -/
  | scalar (plain : Bool) (content : String)
  deriving DecidableEq

-- ============================================================= anchors

/-- Whether a character may be part of an anchor. -/
def isAnchorChar (c : Char) : Bool := !(isSpace c || isFlowMark c || c == '\ufeff')

/-- Takes the name of an anchor off, after the mark before it. -/
def anchorName (c : Cursor) : Option (String × Cursor) :=
  let after := c.afterMarks 1
  let name := after.rest.takeWhile isAnchorChar
  if name = [] then none
  else some (String.ofList name, Cursor.afterAll isAnchorChar after.place after.rest)

-- ================================================================ tags

/-- Whether a character may be part of a handle. -/
def isHandleChar (c : Char) : Bool := c.isAlphanum || c == '_' || c == '-'

/-- Whether a character may be part of a tag written in full. -/
def isUriChar (c : Char) : Bool := isHandleChar c || "#;/?:@&=+$,.!~*'()[]%".toList.contains c

/-- Whether a character may be part of a shortened tag. -/
def isTagChar (c : Char) : Bool := isUriChar c && !isFlowMark c && c != '!'

/-- How many bytes a character takes that begins with this byte. -/
def escapedWidth (byte : Nat) : Option Nat :=
  if byte < 0x80 then some 1
  else if 0xc0 ≤ byte ∧ byte < 0xe0 then some 2
  else if 0xe0 ≤ byte ∧ byte < 0xf0 then some 3
  else if 0xf0 ≤ byte ∧ byte < 0xf8 then some 4
  else none

/-- The byte that an escape in a tag stands for. -/
def escapedByte : List Char → Option Nat
  | '%' :: high :: low :: _ => readDigits 16 0 [high, low]
  | _ => none

/-- Joins the bytes of an escaped character, each of which but the first is a
continuation. -/
def joinBytes (code : Nat) : (count : Nat) → List Char → Option Nat
  | 0, _ => some code
  | count + 1, cs => (escapedByte cs).bind fun byte =>
    if 0x80 ≤ byte ∧ byte < 0xc0 then joinBytes (code * 256 + byte) count (cs.drop 3) else none

/-- The character that the escapes at the start of a tag's text stand for, and
how many they are. -/
def escapedChar (cs : List Char) : Option (Char × Nat) := do
  let first ← escapedByte cs
  let width ← escapedWidth first
  let code ← joinBytes first (width - 1) (cs.drop 3)
  return (← charOfCode code, width)

/-- Takes the characters of a tag off that `allowed` accepts; `taken` counts
characters ahead that belong to an escape already read. -/
def tagText (allowed : Char → Bool) : (taken : Nat) → Place → List Char →
    Option (List Char × Cursor)
  | _, p, [] => some ([], ⟨p, []⟩)
  | taken + 1, p, _ :: rest => tagText allowed taken p.afterMark rest
  | 0, p, c :: rest =>
    if !allowed c then some ([], ⟨p, c :: rest⟩)
    else do
      let (c', more) ← if c = '%' then (escapedChar (c :: rest)).map fun (c', width) =>
        (c', 3 * width - 1) else some (c, 0)
      let (cs, after) ← tagText allowed more p.afterMark rest
      return (c' :: cs, after)

/-- Takes the handle of a tag off: an exclamation mark, a word, and perhaps
another mark. -/
def tagHandle (c : Cursor) : List Char × Cursor :=
  let start := c.afterMarks 1
  let word := start.rest.takeWhile isHandleChar
  let after := Cursor.afterAll isHandleChar start.place start.rest
  if after.rest.head? = some '!' then ('!' :: word ++ ['!'], after.afterMarks 1)
  else ('!' :: word, after)

/-- Takes a tag off that is written in full between angle brackets. -/
def fullTag (c : Cursor) : Option (Token × Cursor) := do
  let start := c.afterMarks 2
  let (suffix, after) ← tagText isUriChar 0 start.place start.rest
  if after.rest.head? = some '>' then return (.tag "" (String.ofList suffix), after.afterMarks 1)
  else none

/-- Takes a shortened tag off: a handle and what follows it. Without a second
exclamation mark the word of the handle is what follows, and an exclamation
mark alone has no handle. -/
def shortTag (c : Cursor) : Option (Token × Cursor) := do
  let (handle, start) := tagHandle c
  let (rest, after) ← tagText isTagChar 0 start.place start.rest
  if 2 ≤ handle.length ∧ handle.getLast? = some '!' then
    if rest = [] then none else return (.tag (String.ofList handle) (String.ofList rest), after)
  else match handle.drop 1 ++ rest with
    | [] => return (.tag "" "!", after)
    | suffix => return (.tag "!" (String.ofList suffix), after)

/-- Takes a tag off, which is set off from what follows. -/
def tagToken (flow : Bool) (c : Cursor) : Option (Token × Cursor) := do
  let (token, after) ← if (c.rest.drop 1).head? = some '<' then fullTag c else shortTag c
  if endsToken after.rest || (flow && after.rest.head?.any isFlowMark) then return (token, after)
  else none

-- ========================================================== directives

/-- Takes a number of at most nine digits off. -/
def versionNumber (c : Cursor) : Option Cursor :=
  let count := (c.rest.takeWhile Char.isDigit).length
  if count = 0 ∨ 9 < count then none else some (c.afterMarks count)

/-- Takes the two numbers of a version off. -/
def versionNumbers (c : Cursor) : Option Cursor := do
  let after ← versionNumber (Cursor.afterBlanks c.place c.rest)
  if after.rest.head? = some '.' then versionNumber (after.afterMarks 1) else none

/-- Takes a handle and the text it stands for off. -/
def handleText (c : Cursor) : Option (Token × Cursor) := do
  let start := Cursor.afterBlanks c.place c.rest
  if start.rest.head? ≠ some '!' then none
  else
    let (name, after) := tagHandle start
    if name ≠ ['!'] ∧ (name.length < 2 ∨ name.getLast? ≠ some '!') then none
    else
      let start := Cursor.afterBlanks after.place after.rest
      let starts := start.rest.head?.any fun c => c == '!' || isTagChar c
      if !starts then none
      else
        let (text, after) ← tagText isUriChar 0 start.place start.rest
        if endsToken after.rest then
          return (.handle (String.ofList name) (String.ofList text), after)
        else none

/-- Takes a directive off with the end of its line. One of an unknown name
says nothing. -/
def directive (c : Cursor) : Option (Token × Cursor) := do
  let start := c.afterMarks 1
  let name := String.ofList (start.rest.takeWhile isHandleChar)
  let after := Cursor.afterAll isHandleChar start.place start.rest
  if name = "" ∨ !endsToken after.rest then none
  else
    let (token, after) ←
      if name = "YAML" then (versionNumbers after).map fun after => (Token.version, after)
      else if name = "TAG" then handleText after
      else some (.handle "" "", after.afterComment)
    let after ← after.afterTrail
    match after.rest with
    | [] => return (token, after)
    | '\n' :: rest => return (token, ⟨after.place.afterBreak, rest⟩)
    | _ => none

end Metrograph.Yaml
