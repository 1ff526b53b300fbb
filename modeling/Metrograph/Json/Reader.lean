/-
Reading JSON texts.

Every value takes at least one character off the text, so the length of
the text bounds how many values are ever begun; that bound is the fuel of
the reader and never runs out.
-/
import Metrograph.Json.Document
import Metrograph.Json.Number

namespace Metrograph.Json

def isBlank (c : Char) : Bool := c == ' ' || c == '\n' || c == '\t' || c == '\r'

def skipBlanks (cs : List Char) : List Char := cs.dropWhile isBlank

/-- Takes a fixed word off a text. -/
def word (expected : List Char) (cs : List Char) : Option (List Char) :=
  if expected.isPrefixOf cs then some (cs.drop expected.length) else none

-- ============================================================= strings

/-- The value of a hexadecimal digit. -/
def hexValue (c : Char) : Option Nat :=
  if c.isDigit then some (c.toNat - '0'.toNat)
  else if 'a' ≤ c ∧ c ≤ 'f' then some (c.toNat - 'a'.toNat + 10)
  else if 'A' ≤ c ∧ c ≤ 'F' then some (c.toNat - 'A'.toNat + 10)
  else none

/-- The character that a short escape names. -/
def shortEscape : Char → Option Char
  | '"' => some '"'
  | '\\' => some '\\'
  | '/' => some '/'
  | 'b' => some '\x08'
  | 'f' => some '\x0c'
  | 'n' => some '\n'
  | 'r' => some '\r'
  | 't' => some '\t'
  | _ => none

/-- Takes the rest of a string and its closing mark off a text. What the
string holds comes as numbers: code points, and the 16-bit units of
escapes. -/
def stringUnits : List Char → Option (List Nat × List Char)
  | [] => none
  | '"' :: rest => some ([], rest)
  | '\\' :: 'u' :: a :: b :: c :: d :: rest => do
    let a ← hexValue a
    let b ← hexValue b
    let c ← hexValue c
    let d ← hexValue d
    let (units, after) ← stringUnits rest
    return ((((a * 16 + b) * 16 + c) * 16 + d) :: units, after)
  | '\\' :: e :: rest => do
    let c ← shortEscape e
    let (units, after) ← stringUnits rest
    return (c.toNat :: units, after)
  | c :: rest =>
    if c = '\\' ∨ c.toNat < 0x20 then none
    else do
      let (units, after) ← stringUnits rest
      return (c.toNat :: units, after)

/-- The characters of a list of units: a high surrogate joins the low one
after it, and neither stands alone. -/
def charsOfUnits : List Nat → Option (List Char)
  | [] => some []
  | high :: rest =>
    if 0xd800 ≤ high ∧ high < 0xdc00 then
      match rest with
      | low :: rest =>
        if 0xdc00 ≤ low ∧ low < 0xe000 then
          (charsOfUnits rest).map
            (Char.ofNat (0x10000 + (high - 0xd800) * 0x400 + (low - 0xdc00)) :: ·)
        else none
      | [] => none
    else if 0xdc00 ≤ high ∧ high < 0xe000 then none
    else (charsOfUnits rest).map (Char.ofNat high :: ·)

/-- Takes a string off a text that goes on after its opening mark. -/
def stringRest (cs : List Char) : Option (Option String × List Char) := do
  let (units, rest) ← stringUnits cs
  return ((charsOfUnits units).map String.ofList, rest)

-- ============================================================== values

mutual

/-- Takes a value off a text that starts with it. -/
def value : Nat → List Char → Option (Json × List Char)
  | 0, _ => none
  | fuel + 1, cs =>
    match cs with
    | 'n' :: _ => (word ['n', 'u', 'l', 'l'] cs).map fun rest => (.null, rest)
    | 't' :: _ => (word ['t', 'r', 'u', 'e'] cs).map fun rest => (.bool true, rest)
    | 'f' :: _ => (word ['f', 'a', 'l', 's', 'e'] cs).map fun rest => (.bool false, rest)
    | '"' :: rest => (stringRest rest).map fun (s, rest) => (.string s, rest)
    | '[' :: rest =>
      match skipBlanks rest with
      | ']' :: rest => some (.array [], rest)
      | rest => (elements fuel rest).map fun (js, rest) => (.array js, rest)
    | '\x7b' :: rest =>
      match skipBlanks rest with
      | '\x7d' :: rest => some (.object [], rest)
      | rest => (members fuel rest).map fun (ms, rest) => (.object ms, rest)
    | _ => (Numeral.scan cs).map fun (_, rest) =>
        (.number (cs.take (cs.length - rest.length)), rest)

/-- Takes the elements of an array and its closing bracket off a text. -/
def elements : Nat → List Char → Option (List Json × List Char)
  | 0, _ => none
  | fuel + 1, cs => do
    let (j, rest) ← value fuel cs
    match skipBlanks rest with
    | ']' :: rest => return ([j], rest)
    | ',' :: rest =>
      let (js, rest) ← elements fuel (skipBlanks rest)
      return (j :: js, rest)
    | _ => none

/-- Takes the members of an object and its closing brace off a text. -/
def members : Nat → List Char → Option (List (Option String × Json) × List Char)
  | 0, _ => none
  | fuel + 1, cs =>
    match cs with
    | '"' :: rest => do
      let (name, rest) ← stringRest rest
      match skipBlanks rest with
      | ':' :: rest =>
        let (j, rest) ← value fuel (skipBlanks rest)
        match skipBlanks rest with
        | '\x7d' :: rest => return ([(name, j)], rest)
        | ',' :: rest =>
          let (ms, rest) ← members fuel (skipBlanks rest)
          return ((name, j) :: ms, rest)
        | _ => none
      | _ => none
    | _ => none

end

/-- Reads a text that is one value and blanks around it. -/
def read (text : String) : Option Json :=
  let cs := skipBlanks text.toList
  match value (cs.length + 1) cs with
  | some (j, rest) => if skipBlanks rest = [] then some j else none
  | none => none

end Metrograph.Json
