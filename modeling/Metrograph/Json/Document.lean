/-
JSON documents as trees.

A number keeps its spelling, since what it is worth depends on who asks. A
string whose escapes leave half of a surrogate pair has no content; that
only matters where the string is used. Members of an object stay in their
order, repeated names included.
-/
namespace Metrograph

/-- A JSON value as it is written, with members in their order. -/
inductive Json where
  | null
  | bool (b : Bool)
  /-- A number as it is spelled. -/
  | number (spelling : List Char)
  /-- A string; `none` where its escapes name no characters. -/
  | string (content : Option String)
  | array (elements : List Json)
  | object (members : List (Option String × Json))

namespace Json

def text (s : String) : Json := .string (some s)

/-- An object of known names. -/
def record (members : List (String × Json)) : Json :=
  .object (members.map fun (name, j) => (some name, j))

/-- The values of named members in the order of the names: every name exactly
once, other members left aside. A list of exactly as many elements stands
for the same record. -/
def fields (names : List String) : Json → Option (List Json)
  | .array elements => if elements.length = names.length then some elements else none
  | .object members =>
    if members.all fun (name, _) => name.isSome then
      names.mapM fun name =>
        match members.filter fun (other, _) => other = some name with
        | [(_, j)] => some j
        | _ => none
    else none
  | _ => none

end Json

end Metrograph
