/-
Writing JSON texts, on one line without blanks or over several lines.
-/
import Metrograph.Json.Document
import Metrograph.Decimal.Layout

namespace Metrograph.Json

/-- A number as it is written; one that is not finite is written as nothing. -/
def ofFloat (x : Float) : Json :=
  if x.isFinite then .number (Decimal.encoded.text x).toList else .null

def ofNat (n : Nat) : Json := .number (Nat.toDigits 10 n)

-- ============================================================= strings

/-- A character of a string as it is written: marks and controls are
escaped. -/
def escapeChar (c : Char) : List Char :=
  match c with
  | '"' => ['\\', '"']
  | '\\' => ['\\', '\\']
  | '\x08' => ['\\', 'b']
  | '\x0c' => ['\\', 'f']
  | '\n' => ['\\', 'n']
  | '\r' => ['\\', 'r']
  | '\t' => ['\\', 't']
  | c =>
    if c.toNat < 0x20 then
      ['\\', 'u', '0', '0', Nat.digitChar (c.toNat / 16), Nat.digitChar (c.toNat % 16)]
    else [c]

/-- A string in quotation marks. -/
def quoteChars (content : String) : List Char :=
  '"' :: (content.toList.flatMap escapeChar ++ ['"'])

/-- The word for a truth value. -/
def boolChars (b : Bool) : List Char := if b then ['t', 'r', 'u', 'e'] else ['f', 'a', 'l', 's', 'e']

def nullChars : List Char := ['n', 'u', 'l', 'l']

-- ============================================================= compact

mutual

/-- A value on one line, without blanks. -/
def compact : Json → List Char
  | .null => nullChars
  | .bool b => boolChars b
  | .number spelling => spelling
  | .string content => quoteChars (content.getD "")
  | .array elements => '[' :: (compactElements elements ++ [']'])
  | .object members => '\x7b' :: (compactMembers members ++ ['\x7d'])

/-- Elements with commas between them. -/
def compactElements : List Json → List Char
  | [] => []
  | [j] => compact j
  | j :: rest => compact j ++ ',' :: compactElements rest

/-- Members with commas between them. -/
def compactMembers : List (Option String × Json) → List Char
  | [] => []
  | [(name, j)] => quoteChars (name.getD "") ++ ':' :: compact j
  | (name, j) :: rest =>
    quoteChars (name.getD "") ++ ':' :: (compact j ++ ',' :: compactMembers rest)

end

/-- The text of a value on one line. -/
def line (j : Json) : String := String.ofList j.compact

-- ============================================================== pretty

/-- A line break and the blanks of an indentation. -/
def breakLine (indent : Nat) : List Char := '\n' :: List.replicate (2 * indent) ' '

mutual

/-- A value over several lines, nested values two blanks further in. -/
def pretty (indent : Nat) : Json → List Char
  | .array (j :: rest) =>
    '[' :: (prettyElements (indent + 1) (j :: rest) ++ breakLine indent ++ [']'])
  | .object (m :: rest) =>
    '\x7b' :: (prettyMembers (indent + 1) (m :: rest) ++ breakLine indent ++ ['\x7d'])
  | .null => nullChars
  | .bool b => boolChars b
  | .number spelling => spelling
  | .string content => quoteChars (content.getD "")
  | .array [] => ['[', ']']
  | .object [] => ['\x7b', '\x7d']

/-- Elements, each on a line of its own. -/
def prettyElements (indent : Nat) : List Json → List Char
  | [] => []
  | [j] => breakLine indent ++ pretty indent j
  | j :: rest => breakLine indent ++ pretty indent j ++ ',' :: prettyElements indent rest

/-- Members, each on a line of its own. -/
def prettyMembers (indent : Nat) : List (Option String × Json) → List Char
  | [] => []
  | [(name, j)] =>
    breakLine indent ++ quoteChars (name.getD "") ++ ':' :: ' ' :: pretty indent j
  | (name, j) :: rest =>
    breakLine indent ++ quoteChars (name.getD "") ++ ':' :: ' ' :: pretty indent j ++
      ',' :: prettyMembers indent rest

end

/-- The text of a value over several lines. -/
def lines (j : Json) : String := String.ofList (j.pretty 0)

end Metrograph.Json
