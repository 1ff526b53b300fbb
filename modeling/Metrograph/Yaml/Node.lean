/-
What a YAML document holds: a tree whose scalars are what their spelling
or their tag says.

Two names in a table are the same only if they are the same tree, so the
whole number 1 and the text "1" may stand beside each other, and so may
numbers that are spelled differently.
-/
import Metrograph.Document
import Metrograph.Yaml.Quoted

namespace Metrograph.Yaml

inductive Node where
  /-- A scalar that is not what its tag says, or a list or table within
  itself. -/
  | invalid
  | null
  | toggle (b : Bool)
  | whole (n : Int)
  /-- A number as it is spelled. -/
  | number (spelling : String)
  | text (s : String)
  | list (items : List Node)
  | table (members : List (Node × Node))

/-- A tag with its handle written out. -/
structure Tag where
  family : String
  kind : String

-- ============================================================= scalars

/-- Reads a whole number of 64 bits, with or without a sign. -/
def readInt (radix : Nat) (cs : List Char) : Option Int :=
  let (negative, digits) := match cs with
    | '-' :: rest => (true, rest)
    | '+' :: rest => (false, rest)
    | _ => (false, cs)
  if digits = [] then none
  else (readDigits radix 0 digits).bind fun n =>
    let signed : Int := if negative then -n else n
    if Word.lowest 63 ≤ signed ∧ signed ≤ Word.highest 63 then some signed else none

/-- The whole number that a plain scalar spells: decimal, or in radix 16 or 8
after a mark. -/
def spelledInt (cs : List Char) : Option Int :=
  let marked := match cs with
    | '0' :: 'x' :: rest => readInt 16 rest
    | '0' :: 'o' :: rest => readInt 8 rest
    | '+' :: rest => readInt 10 rest
    | _ => none
  marked.or (readInt 10 cs)

/-- The toggle that a plain scalar spells. -/
def spelledToggle (s : String) : Option Bool :=
  if s ∈ ["true", "True", "TRUE"] then some true
  else if s ∈ ["false", "False", "FALSE"] then some false
  else none

/-- Spellings of numbers without digits. -/
def digitless : List String :=
  [".inf", ".Inf", ".INF", "+.inf", "+.Inf", "+.INF", "-.inf", "-.Inf", "-.INF",
    ".nan", ".NaN", ".NAN"]

/-- Whether a plain scalar spells a number. -/
def isNumber (s : String) : Bool :=
  s ∈ digitless || (s.toList.any Char.isDigit && (Decimal.readNumber s).toOption.isSome)

namespace Node

/-- What a plain scalar says. -/
def ofPlain (s : String) : Node :=
  match spelledInt s.toList, spelledToggle s with
  | some n, _ => .whole n
  | _, some b => .toggle b
  | _, _ =>
    if s ∈ ["", "~", "null"] then .null
    else if isNumber s then .number s
    else .text s

/-- The family of the tags that say what a scalar is. -/
def kinds : String := "tag:yaml.org,2002:"

/-- What a plain scalar with a tag says. Unless the tag names another kind of
scalar it is text. -/
def ofTagged (tag : Tag) (s : String) : Node :=
  if tag.family ≠ kinds then .text s
  else match tag.kind with
    | "bool" => ((spelledToggle s).map .toggle).getD .invalid
    | "int" => ((readInt 10 s.toList).map .whole).getD .invalid
    | "float" => if isNumber s then .number s else .invalid
    | "null" => if s = "~" ∨ s = "null" then .null else .invalid
    | _ => .text s

/-- What a scalar says; only a plain one may be other than text. -/
def ofScalar (plain : Bool) (tag? : Option Tag) (s : String) : Node :=
  if !plain then .text s
  else match tag? with
    | some tag => ofTagged tag s
    | none => ofPlain s

-- ============================================================== tables

mutual

/-- Whether two trees are the same. -/
def same : Node → Node → Bool
  | .invalid, .invalid => true
  | .null, .null => true
  | .toggle a, .toggle b => a == b
  | .whole a, .whole b => a == b
  | .number a, .number b => a == b
  | .text a, .text b => a == b
  | .list a, .list b => sameItems a b
  | .table a, .table b => sameMembers a b
  | _, _ => false

/-- Whether two lists hold the same trees. -/
def sameItems : List Node → List Node → Bool
  | [], [] => true
  | a :: as, b :: bs => same a b && sameItems as bs
  | _, _ => false

/-- Whether two tables hold the same members in the same order. -/
def sameMembers : List (Node × Node) → List (Node × Node) → Bool
  | [], [] => true
  | (name, a) :: as, (other, b) :: bs => same name other && same a b && sameMembers as bs
  | _, _ => false

end

/-- Adds a member whose name is new. -/
def addMember (members : List (Node × Node)) (name value : Node) : Option (List (Node × Node)) :=
  if members.any fun (other, _) => same other name then none
  else some (members ++ [(name, value)])

/-- The members of a table from its names and values in turn; `name?` is a name
whose value is the next. An invalid name is passed over, so that its value
is the next name. -/
def membersOf (members : List (Node × Node)) : (name? : Option Node) → List Node →
    Option (List (Node × Node))
  | _, [] => some members
  | none, .invalid :: rest => membersOf members none rest
  | none, name :: rest => membersOf members (some name) rest
  | some name, value :: rest => do membersOf (← addMember members name value) none rest

-- =========================================================== documents

/-- The text that a name in a table stands for. -/
def asName : Node → Option String
  | .text s => some s
  | .number s => some s
  | .whole n => some (toString n)
  | .toggle b => some (if b then "true" else "false")
  | _ => none

mutual

/-- The settings document that a tree stands for, unless it holds a number that
has no digits or a table whose names are not texts. -/
def document? : Node → Option Document
  | .invalid => some .null
  | .null => some .null
  | .toggle b => some (.toggle b)
  | .whole n => some (.whole n)
  | .number s => (Decimal.readNumber s).toOption.map .number
  | .text s => some (.text s)
  | .list items => (documents? items).map .list
  | .table members => (namedDocuments? members).map Document.ofMembers

/-- The documents of the items of a list. -/
def documents? : List Node → Option (List Document)
  | [] => some []
  | item :: rest => do return (← document? item) :: (← documents? rest)

/-- The documents of the members of a table. -/
def namedDocuments? : List (Node × Node) → Option (List (String × Document))
  | [] => some []
  | (name, value) :: rest => do
    let name ← name.asName
    return (name, ← document? value) :: (← namedDocuments? rest)

end

end Node

end Metrograph.Yaml
