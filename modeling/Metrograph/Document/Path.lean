/-
Names that are paths: words with points between them lead through nested
tables, and a whole number in brackets after a word leads into a list. So
`values.bpm` names the member `bpm` of the member `values`.

Only the names of a whole document are read this way; in the tables below
a name is what it says.
-/
import Metrograph.Document
import Metrograph.Decimal.Literal
import Metrograph.Text.Character

namespace Metrograph.Document

-- =============================================================== paths

/-- A step on a path. -/
inductive Step where
  | member (name : String)
  | item

/-- Whether a character may be part of a word on a path. -/
def isWordChar (c : Char) : Bool := c.isAlphanum || c == '_' || c == '-'

/-- Whether a text is a whole number of 64 bits with blanks around it, and what
follows it is a closing bracket. -/
def isItem (cs : List Char) : Bool :=
  let isBlank (c : Char) : Bool := c == ' ' || c == '\t'
  match cs.reverse with
  | ']' :: inner =>
    let number := Text.dropEndWhile isBlank (inner.reverse.dropWhile isBlank)
    let (digits, limit) := match number with
      | '-' :: digits => (digits, Word.count 63)
      | digits => (digits, Word.largest 63)
    digits ≠ [] && digits.all Char.isDigit && decide (Decimal.natOfDigits digits ≤ limit)
  | _ => false

/-- The steps of a word and the brackets after it. -/
def wordSteps (cs : List Char) : Option (List Step) :=
  let word := cs.takeWhile isWordChar
  match Text.splitChars (· == '[') (cs.dropWhile isWordChar) with
  | [] :: items =>
    if word ≠ [] ∧ items.all isItem then
      some (.member (String.ofList word) :: items.map fun _ => .item)
    else none
  | _ => none

/-- The steps that a name stands for; a name that is no path is one step. -/
def stepsOf (name : String) : List Step :=
  match (Text.splitChars (· == '.') name.toList).mapM wordSteps with
  | some steps => steps.flatten
  | none => [.member name]

-- ============================================================= placing

/-- The members of a table; nothing else has any. -/
def membersOf : Document → List (String × Document)
  | .table members => members
  | _ => []

/-- The member of a name, null if there is none. -/
def memberOf (d : Document) (name : String) : Document := (find? name d.membersOf).getD .null

/-- Adds a member in place of one of the same name; what is no table becomes
one. -/
def put (d : Document) (name : String) (member : Document) : Document :=
  .table (putMember d.membersOf name member)

mutual

/-- Puts a value in place of another, table into table. -/
def merge : (value old : Document) → Document
  | .table members, .null => mergeMembers members (.table [])
  | .table members, old => mergeMembers members old
  | value, _ => value

/-- Puts members into a table. -/
def mergeMembers : List (String × Document) → Document → Document
  | [], d => d
  | (name, value) :: rest, d => mergeMembers rest (d.put name (merge value (d.memberOf name)))

end

/-- Puts a value at the end of a path. Settings take no lists, so what stands
in one is left out. -/
def place (value : Document) : List Step → Document → Document
  | [], old => merge value old
  | .member name :: rest, old => old.put name (place value rest (old.memberOf name))
  | .item :: _, _ => .list []

/-- The members of a document, each at the end of its path. -/
def placeAll (members : List (String × Document)) : Document :=
  members.foldl (fun d (name, value) => place value (stepsOf name) d) (.table [])

end Metrograph.Document
