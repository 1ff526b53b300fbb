/-
Texts in quotation marks. Ends of lines inside fold into blanks, and the
blanks around them are dropped; in double quotation marks a backslash
starts an escape, and before the end of a line it takes that end away.

The lines of a text may not start further left than the block around it,
nor with the mark of a document.
-/
import Metrograph.Json.Reader
import Metrograph.Yaml.Place

namespace Metrograph.Yaml

-- ============================================================= folding

/-- What stands between two words. -/
inductive Gap where
  | none
  | blanks (pending : List Char)
  /-- Some ends of lines. -/
  | breaks (count : Nat)
  /-- A backslash that takes the next end of a line away. -/
  | joint
  /-- An end of a line that was taken away, and more of them after it. -/
  | joined (count : Nat)

namespace Gap

/-- Adds a blank; after an end of a line it is dropped. -/
def addBlank (c : Char) : Gap → Gap
  | .none => .blanks [c]
  | .blanks pending => .blanks (pending ++ [c])
  | gap => gap

/-- Adds an end of a line; blanks before it are dropped. -/
def addBreak : Gap → Gap
  | .breaks count => .breaks (count + 1)
  | .joint => .joined 0
  | .joined count => .joined (count + 1)
  | _ => .breaks 1

/-- Whether there is an end of a line. -/
def isBroken : Gap → Bool
  | .breaks _ => true
  | .joined _ => true
  | _ => false

/-- What a gap folds into: one end of a line into a blank, more into one
less. -/
def text : Gap → List Char
  | .blanks pending => pending
  | .breaks 0 => []
  | .breaks 1 => [' ']
  | .breaks (count + 1) => List.replicate count '\n'
  | .joined count => List.replicate count '\n'
  | _ => []

end Gap

-- ============================================================= escapes

/-- The character that a short escape names. -/
def shortEscape : Char → Option Char
  | '0' => some '\x00'
  | 'a' => some '\x07'
  | 'b' => some '\x08'
  | 't' => some '\t'
  | '\t' => some '\t'
  | 'n' => some '\n'
  | 'v' => some '\x0b'
  | 'f' => some '\x0c'
  | 'r' => some '\r'
  | 'e' => some '\x1b'
  | ' ' => some ' '
  | '"' => some '"'
  | '/' => some '/'
  | '\\' => some '\\'
  | 'N' => some '\u0085'
  | '_' => some '\u00a0'
  | 'L' => some '\u2028'
  | 'P' => some '\u2029'
  | _ => none

/-- How many hexadecimal digits follow an escape. -/
def escapeDigits : Char → Nat
  | 'x' => 2
  | 'u' => 4
  | 'U' => 8
  | _ => 0

/-- The value of a digit in some radix. -/
def digit? (radix : Nat) (c : Char) : Option Nat := (Json.hexValue c).filter (· < radix)

/-- Reads digits onto a number. -/
def readDigits (radix : Nat) : Nat → List Char → Option Nat
  | n, [] => some n
  | n, c :: rest => (digit? radix c).bind fun d => readDigits radix (radix * n + d) rest

/-- The character of a code point. -/
def charOfCode (n : Nat) : Option Char := if n.isValidChar then some (Char.ofNat n) else none

/-- The character that an escape stands for, and how many characters of the
text after the backslash it takes. -/
def escape? : List Char → Option (Char × Nat)
  | [] => none
  | e :: rest =>
    let count := escapeDigits e
    if count = 0 then (shortEscape e).map fun c => (c, 1)
    else if rest.length < count then none
    else ((readDigits 16 0 (rest.take count)).bind charOfCode).map fun c => (c, count + 1)

-- ============================================================== reading

/-- How a text in quotation marks goes on. -/
inductive Quote where
  | close
  /-- With a character, written with so many more after its first. -/
  | char (c : Char) (more : Nat)
  /-- With a backslash at the end of a line. -/
  | joint

/-- How a text in quotation marks goes on at a character that is no blank. A
single mark inside single marks is written twice. -/
def quote? (single : Bool) (c : Char) (rest : List Char) : Option Quote :=
  if single then
    if c ≠ '\'' then some (.char c 0)
    else if rest.head? = some '\'' then some (.char c 1)
    else some .close
  else if c = '"' then some .close
  else if c ≠ '\\' then some (.char c 0)
  else if rest.head? = some '\n' then some .joint
  else (escape? rest).map fun (c, count) => .char c count

/-- Whether the text may go on here after a gap. The closing mark may stand
anywhere right after an end of a line that was taken away. -/
def resumes (indent : Int) (gap : Gap) (p : Place) (quote : Quote) (cs : List Char) : Bool :=
  match gap, quote with
  | .none, _ => true
  | .joined 0, .close => p.column == 0 || !p.isLeftOf indent
  | _, _ => !(p.column == 0 && isDocumentMark cs) && !p.isLeftOf indent

/-- The characters of a text up to its closing mark; `taken` counts characters
ahead that belong to an escape already read. -/
def quotedFrom (single : Bool) (indent : Int) :
    (taken : Nat) → Gap → Place → List Char → Option (List Char × Cursor)
  | _, _, _, [] => none
  | taken + 1, gap, p, _ :: rest => quotedFrom single indent taken gap p.afterMark rest
  | 0, gap, p, c :: rest =>
    if c = '\n' then quotedFrom single indent 0 gap.addBreak p.afterBreak rest
    else if isBlank c then
      if c == '\t' && gap.isBroken && p.isLeftOf indent then none
      else quotedFrom single indent 0 (gap.addBlank c) p.afterBlank rest
    else
      match quote? single c rest with
      | none => none
      | some quote =>
        if !resumes indent gap p quote (c :: rest) then none
        else match quote with
          | .close => some (gap.text, ⟨p.afterMark, rest⟩)
          | .joint =>
            (quotedFrom single indent 0 .joint p.afterMark rest).map fun (cs, after) =>
              (gap.text ++ cs, after)
          | .char c' more =>
            (quotedFrom single indent more .none p.afterMark rest).map fun (cs, after) =>
              (gap.text ++ c' :: cs, after)

/-- Whether a text in quotation marks that began on some line may be followed
by this: by what ends a line, by the marks of brackets where it stands in
them, or by a colon, outside brackets only on the same line. -/
def followsQuoted (flow : Bool) (line : Nat) (c : Cursor) : Bool :=
  match c.rest with
  | ':' :: _ => flow || c.place.line == line
  | mark :: _ => mark == '\n' || (flow && [',', ']', '\x7d'].contains mark)
  | [] => true

/-- Takes a text in quotation marks off, and the blanks after it. -/
def quoted (flow : Bool) (indent : Int) (c : Cursor) : Option (String × Cursor) :=
  match c.rest with
  | [] => none
  | mark :: rest => do
    let (cs, after) ← quotedFrom (mark == '\'') indent 0 .none c.place.afterMark rest
    let after ← after.afterTrail
    if followsQuoted flow c.place.line after then some (String.ofList cs, after) else none

end Metrograph.Yaml
