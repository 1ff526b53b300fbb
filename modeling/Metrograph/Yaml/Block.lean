/-
Blocks of lines after a bar or an angle bracket. The lines keep their ends
after a bar; after an angle bracket an end of a line between two lines of
text folds into a blank.

The first line with anything on it, or the longest blank one before it,
tells how deep the lines are indented, unless a digit does. The ends of
lines at the end of a block are cut to one, to none, or kept.
-/
import Metrograph.Yaml.Place

namespace Metrograph.Yaml

/-- What becomes of the ends of lines at the end of a block. -/
inductive Chomp where
  | clip
  | strip
  | keep
  deriving DecidableEq

/-- What is said about a block where it begins. -/
structure BlockHead where
  chomp : Chomp
  /-- How much deeper than the block around it the lines are indented. -/
  deeper? : Option Nat

-- ============================================================ the head

/-- The marks after the one that opens a block, a sign and a digit in either
order, and how many they are. -/
def blockHead : List Char → Option (BlockHead × Nat)
  | [] => some (⟨.clip, none⟩, 0)
  | c :: rest =>
    let sign? (c : Char) : Option Chomp :=
      if c = '-' then some .strip else if c = '+' then some .keep else none
    let next := rest.head?
    match sign? c with
    | some chomp => match next.filter Char.isDigit with
      | none => some (⟨chomp, none⟩, 1)
      | some d => if d = '0' then none else some (⟨chomp, some (d.toNat - '0'.toNat)⟩, 2)
    | none =>
      if !c.isDigit then some (⟨.clip, none⟩, 0)
      else if c = '0' then none
      else match next.bind sign? with
        | none => some (⟨.clip, some (c.toNat - '0'.toNat)⟩, 1)
        | some chomp => some (⟨chomp, some (c.toNat - '0'.toNat)⟩, 2)

-- ========================================================= indentation

/-- Skips spaces up to column `indent` and lines on which nothing else stands,
and counts the ends of lines. -/
def blankLines (indent : Nat) (breaks : Nat) (p : Place) : List Char → Nat × Cursor
  | [] => (breaks, ⟨p, []⟩)
  | c :: rest =>
    if c = ' ' ∧ p.column < indent then blankLines indent breaks p.afterBlank rest
    else if c = '\n' then blankLines indent (breaks + 1) p.afterBreak rest
    else (breaks, ⟨p, c :: rest⟩)

/-- Skips spaces and lines on which nothing else stands. Counts the ends of
lines and finds the column of the furthest space. -/
def firstLine (breaks deepest : Nat) (p : Place) : List Char → Nat × Nat × Cursor
  | [] => (breaks, max deepest p.column, ⟨p, []⟩)
  | c :: rest =>
    if c = ' ' then firstLine breaks deepest p.afterBlank rest
    else if c = '\n' then firstLine (breaks + 1) (max deepest p.column) p.afterBreak rest
    else (breaks, max deepest p.column, ⟨p, c :: rest⟩)

-- =============================================================== lines

/-- What stands between two lines of a block. -/
structure Seam where
  /-- The line before it has an end. -/
  broken : Bool
  /-- How many further ends of lines follow. -/
  breaks : Nat
  /-- The line before it begins with a blank. -/
  blank : Bool

/-- The ends of lines before a line of a block: between two lines of text that
begin with no blank they fold, if the block does. -/
def Seam.text (fold blank : Bool) (s : Seam) : List Char :=
  if fold ∧ s.broken ∧ ¬ s.blank ∧ ¬ blank then
    if s.breaks = 0 then [' '] else List.replicate s.breaks '\n'
  else List.replicate (s.breaks + s.broken.toNat) '\n'

/-- The rest of a line and what follows it. -/
def lineOf (p : Place) : List Char → List Char × Cursor
  | [] => ([], ⟨p, []⟩)
  | c :: rest =>
    if c = '\n' then ([], ⟨p, c :: rest⟩)
    else
      let (line, after) := lineOf p.afterBlank rest
      (c :: line, after)

/-- Takes lines off that begin at column `indent`, the first after some seam;
the last one leaves a seam too. -/
def blockLines (fold : Bool) (indent : Nat) :
    (fuel : Nat) → Seam → Cursor → List Char × Seam × Cursor
  | 0, s, c => ([], s, c)
  | fuel + 1, s, c =>
    if c.place.column ≠ indent ∨ c.rest = [] ∨ (indent = 0 ∧ isTriple '.' c.rest) then ([], s, c)
    else
      let blank := c.rest.head?.any isBlank
      let (line, after) := lineOf c.place c.rest
      let text := s.text fold blank ++ line
      match after.rest with
      | [] => (text, ⟨false, 0, blank⟩, after)
      | _ :: rest =>
        let (breaks, next) := blankLines indent 0 after.place.afterBreak rest
        let (more, s, c) := blockLines fold indent fuel ⟨true, breaks, blank⟩ next
        (text ++ more, s, c)

/-- The ends of lines at the end of a block, by what becomes of them. A last
line without an end that is indented as the others counts as ended. -/
def Seam.ending (chomp : Chomp) (indent : Nat) (s : Seam) (c : Cursor) : List Char :=
  if chomp = .strip then []
  else
    let ended := c.rest = [] ∧ max indent 1 ≤ c.place.column
    let kept := if chomp = .keep then s.breaks else 0
    List.replicate (s.broken.toNat + (if ended then 1 else 0) + kept) '\n'

/-- The text of a block without any line, which ends after some ends of
lines; `broken` says whether its head did. -/
def emptyBlock (chomp : Chomp) (broken : Bool) (breaks : Nat) : List Char :=
  match chomp with
  | .strip => []
  | .clip => List.replicate broken.toNat '\n'
  | .keep => List.replicate (if breaks = 0 then broken.toNat else breaks) '\n'

/-- Takes the lines of a block off that begin after its head. -/
def blockBody (fold : Bool) (indent : Int) (head : BlockHead) (broken : Bool) (c : Cursor) :
    Option (List Char × Cursor) :=
  let (breaks, column, c) := match head.deeper? with
    | some n =>
      let column := (max indent 0).toNat + n
      let (breaks, c) := blankLines column 0 c.place c.rest
      (breaks, column, c)
    | none =>
      let (breaks, deepest, c) := firstLine 0 0 c.place c.rest
      (breaks, max deepest (indent + 1).toNat, c)
  if c.rest = [] then some (emptyBlock head.chomp broken breaks, c)
  else if c.place.column < column ∧ indent < c.place.column then none
  else
    let (text, s, after) := blockLines fold column (c.rest.length + 1) ⟨false, breaks, false⟩ c
    some (text ++ s.ending head.chomp column after, after)

/-- Takes a block of lines off that is part of a block at column `indent`. -/
def block (fold : Bool) (indent : Int) (c : Cursor) : Option (String × Cursor) := do
  let (head, count) ← blockHead (c.rest.drop 1)
  let after ← (c.afterMarks (count + 1)).afterTrail
  match after.rest with
  | [] => return ("", after)
  | '\n' :: rest =>
    if rest.head? = some '\t' then none
    else
      let (text, after) ← blockBody fold indent head true ⟨after.place.afterBreak, rest⟩
      return (String.ofList text, after)
  | _ => none

end Metrograph.Yaml
