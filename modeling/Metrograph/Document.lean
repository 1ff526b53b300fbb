/-
What a settings file holds, whatever its format: a tree of tables, lists
and scalars.
-/
import Metrograph.Json.Document
import Metrograph.Json.Number
import Metrograph.Decimal.Layout

namespace Metrograph

/-- A settings document. -/
inductive Document where
  | null
  | toggle (b : Bool)
  /-- A whole number of 64 bits, with a sign or without. -/
  | whole (n : Int)
  | number (x : Float)
  | text (s : String)
  | list (items : List Document)
  /-- Members by name. -/
  | table (members : List (String × Document))

namespace Document

-- ============================================================ tables

/-- The member of a name. -/
def find? (name : String) (members : List (String × Document)) : Option Document :=
  members.lookup name

/-- Adds a member in place of one of the same name. -/
def putMember (members : List (String × Document)) (name : String) (d : Document) :
    List (String × Document) :=
  members.filter (fun (other, _) => other ≠ name) ++ [(name, d)]

/-- A table of members; of two with the same name the later counts. -/
def ofMembers (members : List (String × Document)) : Document :=
  .table (members.foldl (fun table (name, d) => putMember table name d) [])

-- =========================================================== scalars

/-- Whether a whole number fits 64 bits, with a sign or without. -/
def fits (n : Int) : Bool := decide (Word.lowest 63 ≤ n ∧ n ≤ Word.highest 64)

/-- A scalar as text; lists, tables and nothing at all have none. -/
def asText : Document → Option String
  | .text s => some s
  | .whole n => some (toString n)
  | .number x => some (Decimal.plain.text x)
  | .toggle b => some (if b then "true" else "false")
  | _ => none

/-- A number as a count of 64 bits: a half is rounded up, what lies outside
goes to the nearer end. -/
def countOfNumber (x : Float) : Nat :=
  (Scalar.clip 0 Decimal.limit64 (Scalar.value x + 1 / 2).floor).toNat

/-- A text as a count: a word for yes or no in any case, or digits. -/
def countOfText (s : String) : Option Nat :=
  let word := s.toLower
  if word ∈ ["true", "on", "yes"] then some 1
  else if word ∈ ["false", "off", "no"] then some 0
  else (Decimal.readWhole Decimal.limit64 s).toOption

/-- A scalar as a count of 64 bits. -/
def asCount : Document → Option Nat
  | .whole n => if 0 ≤ n then some n.toNat else none
  | .number x => some (countOfNumber x)
  | .toggle b => some b.toNat
  | .text s => countOfText s
  | _ => none

-- ========================================================= JSON texts

/-- The deepest nesting of lists and tables in a JSON text. -/
def deepest : Nat := 127

/-- A JSON number; one out of range is refused. -/
def ofNumeral (n : Json.Numeral) : Option Document :=
  match n.toInt? with
  | some k => if fits k then some (.whole k) else n.toFloat?.map .number
  | none => n.toFloat?.map .number

/-- The document of a JSON text, nested at most so deep. -/
def ofJson : (depth : Nat) → Json → Option Document
  | _, .null => some .null
  | _, .bool b => some (.toggle b)
  | _, .number spelling => (Json.Numeral.ofSpelling spelling).bind ofNumeral
  | _, .string content => content.map .text
  | depth + 1, .array elements => (elements.mapM (ofJson depth)).map .list
  | depth + 1, .object members =>
    (members.mapM fun (member : Option String × Json) => do
      return (← member.1, ← ofJson depth member.2)).map ofMembers
  | 0, _ => none

end Document

end Metrograph
