/-
The grammar of rhythm notation, and what it means for it to accept a text.

# Parsing expressions

An expression takes characters off the front of a text or fails there
(`Peg.Runs`). A choice looks at its second branch only where the first one
fails, and a repetition goes on for as long as it can, so on each text an
expression has one outcome at most (`Runs.functional`). Some parts are
pieces: what they took is kept, one after another in the order in which
they ended, and it is from these pieces alone that a text gets its meaning.

# Spaces

In the rules for patterns, groups and lists of weights blanks are skipped
between two parts, and between the turns of a repetition, but never at the
front of one (`spaced`, `spacedMany`). In the rules for counts, numbers,
names and steps nothing is skipped.
-/
import Metrograph.Proofs.Rhythm.Spelling

namespace Metrograph.Rhythm

open Reader (isBlank)
open Text (Digits Stops stops_cons stops_nil)

-- ========================================================= expressions

/-- A parsing expression. -/
inductive Peg where
  /-- One character of a kind. -/
  | one (kind : Char → Bool)
  | nothing
  | atEnd
  | seq (first second : Peg)
  | either (first second : Peg)
  /-- As many in a row as there are. -/
  | many (e : Peg)
  /-- A part whose characters are kept. -/
  | piece (part : Part) (e : Peg)

/-- What a part of a text was, and its characters. -/
structure Piece where
  part : Part
  chars : List Char
  deriving DecidableEq

namespace Peg

/-- What an expression comes to at the front of a text: pieces and the text
behind them, or nothing where it fails. -/
inductive Runs : Peg → List Char → Option (List Piece × List Char) → Prop
  | one {kind : Char → Bool} {c : Char} {rest : List Char} (is : kind c = true) :
      Runs (one kind) (c :: rest) (some ([], rest))
  | one_fails {kind : Char → Bool} {cs : List Char} (stops : Stops kind cs) :
      Runs (one kind) cs none
  | nothing {cs : List Char} : Runs nothing cs (some ([], cs))
  | atEnd : Runs atEnd [] (some ([], []))
  | atEnd_fails {c : Char} {cs : List Char} : Runs atEnd (c :: cs) none
  | seq {a b : Peg} {cs mid rest : List Char} {ps qs : List Piece}
      (first : Runs a cs (some (ps, mid))) (second : Runs b mid (some (qs, rest))) :
      Runs (seq a b) cs (some (ps ++ qs, rest))
  | seq_fails_first {a b : Peg} {cs : List Char} (first : Runs a cs none) : Runs (seq a b) cs none
  | seq_fails_second {a b : Peg} {cs mid : List Char} {ps : List Piece}
      (first : Runs a cs (some (ps, mid))) (second : Runs b mid none) : Runs (seq a b) cs none
  | either_first {a b : Peg} {cs : List Char} {r : List Piece × List Char}
      (first : Runs a cs (some r)) : Runs (either a b) cs (some r)
  | either_second {a b : Peg} {cs : List Char} {o : Option (List Piece × List Char)}
      (first : Runs a cs none) (second : Runs b cs o) : Runs (either a b) cs o
  | many_stops {e : Peg} {cs : List Char} (failed : Runs e cs none) :
      Runs (many e) cs (some ([], cs))
  | many_goes_on {e : Peg} {cs mid rest : List Char} {ps qs : List Piece}
      (once : Runs e cs (some (ps, mid))) (more : Runs (many e) mid (some (qs, rest))) :
      Runs (many e) cs (some (ps ++ qs, rest))
  | piece {part : Part} {e : Peg} {chars rest : List Char} {ps : List Piece}
      (inside : Runs e (chars ++ rest) (some (ps, rest))) :
      Runs (piece part e) (chars ++ rest) (some (ps ++ [⟨part, chars⟩], rest))
  | piece_fails {part : Part} {e : Peg} {cs : List Char} (inside : Runs e cs none) :
      Runs (piece part e) cs none

/-- An expression has one outcome on a text. -/
theorem Runs.functional {e : Peg} {cs : List Char} {o o' : Option (List Piece × List Char)}
    (h : Runs e cs o) (h' : Runs e cs o') : o = o' := by
  induction h generalizing o' with
  | one is =>
      cases h' with
      | one => rfl
      | one_fails stops => exact absurd (stops _ rfl) (by rw [is]; exact nofun)
  | one_fails stops =>
      cases h' with
      | one is => exact absurd (stops _ rfl) (by rw [is]; exact nofun)
      | one_fails => rfl
  | nothing =>
      cases h'
      rfl
  | atEnd =>
      cases h'
      rfl
  | atEnd_fails =>
      cases h'
      rfl
  | seq _ _ ih₁ ih₂ =>
      cases h' with
      | seq first second =>
          cases ih₁ first
          cases ih₂ second
          rfl
      | seq_fails_first first => cases ih₁ first
      | seq_fails_second first second =>
          cases ih₁ first
          cases ih₂ second
  | seq_fails_first _ ih =>
      cases h' with
      | seq first => cases ih first
      | seq_fails_first => rfl
      | seq_fails_second => rfl
  | seq_fails_second _ _ ih₁ ih₂ =>
      cases h' with
      | seq first second =>
          cases ih₁ first
          cases ih₂ second
      | seq_fails_first => rfl
      | seq_fails_second => rfl
  | either_first _ ih =>
      cases h' with
      | either_first first => exact ih first
      | either_second first => cases ih first
  | either_second _ _ ih₁ ih₂ =>
      cases h' with
      | either_first first => cases ih₁ first
      | either_second _ second => exact ih₂ second
  | many_stops _ ih =>
      cases h' with
      | many_stops => rfl
      | many_goes_on once => cases ih once
  | many_goes_on _ _ ih₁ ih₂ =>
      cases h' with
      | many_stops failed => cases ih₁ failed
      | many_goes_on once more =>
          cases ih₁ once
          cases ih₂ more
          rfl
  | @piece part e chars rest ps _ ih =>
      generalize text : chars ++ rest = cs at h' ih
      cases h' with
      | piece inside =>
          cases ih inside
          rw [List.append_cancel_right text]
      | piece_fails inside => cases ih inside
  | piece_fails _ ih =>
      cases h' with
      | piece inside => cases ih inside
      | piece_fails => rfl

section

variable {a b : Peg} {cs mid : List Char} {ps : List Piece} {o : Option (List Piece × List Char)}

/-- An outcome with pieces in front of it. -/
def behind (ps : List Piece) (o : Option (List Piece × List Char)) :
    Option (List Piece × List Char) :=
  o.map fun r => (ps ++ r.1, r.2)

theorem behind_nil (o : Option (List Piece × List Char)) : behind [] o = o := by
  cases o <;> rfl

/-- Behind an answer the second expression decides. -/
theorem Runs.andThen (first : Runs a cs (some (ps, mid))) (second : Runs b mid o) :
    Runs (.seq a b) cs (behind ps o) := by
  cases o with
  | none => exact .seq_fails_second first second
  | some r => exact .seq first second

/-- How a sequence comes to what it comes to. -/
theorem Runs.seq_cases (h : Runs (.seq a b) cs o) :
    (Runs a cs none ∧ o = none)
      ∨ ∃ ps mid o', Runs a cs (some (ps, mid)) ∧ Runs b mid o' ∧ o = behind ps o' := by
  cases h with
  | seq first second => exact Or.inr ⟨_, _, _, first, second, rfl⟩
  | seq_fails_first first => exact Or.inl ⟨first, rfl⟩
  | seq_fails_second first second => exact Or.inr ⟨_, _, _, first, second, rfl⟩

end

-- ========================================================== shorthands

def literal (c : Char) : Peg := one (· == c)

/-- Something or nothing. -/
def opt (e : Peg) : Peg := either e nothing

/-- As many in a row as there are, and at least one. -/
def several (e : Peg) : Peg := seq e (many e)

def blanks : Peg := many (one isBlank)

/-- One after another, with blanks skipped between them. -/
def spaced (first second : Peg) : Peg := seq first (seq blanks second)

/-- As many in a row as there are, with blanks skipped between them. -/
def spacedMany (e : Peg) : Peg := opt (seq e (many (seq blanks e)))

variable {e : Peg} {cs rest : List Char} {o : Option (List Piece × List Char)}

/-- As many characters of a kind are taken as there are. -/
theorem runs_many_one (kind : Char → Bool) (cs : List Char) :
    Runs (many (one kind)) cs (some ([], cs.dropWhile kind)) := by
  induction cs with
  | nil => exact .many_stops (.one_fails stops_nil)
  | cons c cs ih =>
      by_cases is : kind c = true
      · rw [List.dropWhile_cons_of_pos is]
        exact .many_goes_on (.one is) ih
      · rw [List.dropWhile_cons_of_neg is]
        exact .many_stops (.one_fails (stops_cons (Bool.eq_false_iff.mpr is)))

theorem runs_blanks (cs : List Char) : Runs blanks cs (some ([], cs.dropWhile isBlank)) :=
  runs_many_one isBlank cs

/-- What was dropped once is not there to be dropped again. -/
theorem dropWhile_dropWhile (kind : Char → Bool) (cs : List Char) :
    (cs.dropWhile kind).dropWhile kind = cs.dropWhile kind := by
  induction cs with
  | nil => rfl
  | cons c cs ih =>
      by_cases is : kind c = true
      · rw [List.dropWhile_cons_of_pos is]
        exact ih
      · rw [List.dropWhile_cons_of_neg is, List.dropWhile_cons_of_neg is]

/-- Nothing can be put in front of an expression. -/
theorem runs_nothing_seq (h : Runs e cs o) : Runs (seq nothing e) cs o := by
  have both := Runs.nothing.andThen h
  rwa [behind_nil] at both

/-- What follows blanks runs behind them. -/
theorem runs_blanks_seq : Runs (seq blanks e) cs o ↔ Runs e (cs.dropWhile isBlank) o := by
  constructor
  · intro h
    rcases h.seq_cases with ⟨failed, -⟩ | ⟨ps, mid, o', first, second, rfl⟩
    · cases (runs_blanks cs).functional failed
    · cases (runs_blanks cs).functional first
      rw [behind_nil]
      exact second
  · intro h
    have both := (runs_blanks cs).andThen h
    rwa [behind_nil] at both

/-- A repetition may as well skip blanks in front of every turn, if blanks are
skipped behind it. -/
theorem runs_spacedMany {e' : Peg} (h : Runs (seq (many (seq blanks e)) (seq blanks e')) cs o) :
    Runs (seq blanks (seq (spacedMany e) (seq blanks e'))) cs o := by
  rw [runs_blanks_seq]
  rcases h.seq_cases with ⟨failed, -⟩ | ⟨ps, mid, o', turns, behind, rfl⟩
  · cases failed
  cases turns with
  | many_stops failed =>
      have none : Runs (spacedMany e) (cs.dropWhile isBlank) (some ([], cs.dropWhile isBlank)) :=
        .either_second (.seq_fails_first (runs_blanks_seq.mp failed)) .nothing
      refine none.andThen (runs_blanks_seq.mpr ?_)
      rw [dropWhile_dropWhile]
      exact runs_blanks_seq.mp behind
  | many_goes_on once more =>
      have some : Runs (spacedMany e) (cs.dropWhile isBlank) _ :=
        .either_first (.seq (runs_blanks_seq.mp once) more)
      exact some.andThen behind

end Peg

-- =============================================================== rules

namespace Rules

open Peg

def digit : Peg := one Char.isDigit

/-- Digits with perhaps a point and more digits, or a point and digits. -/
def number : Peg :=
  either (seq (several digit) (opt (seq (literal '.') (many digit))))
    (seq (literal '.') (several digit))

/-- A number that is a weight. -/
def weight : Peg := piece .weight number

/-- A number that is a span. -/
def span : Peg := piece .span number

/-- Digits that are a count. -/
def count : Peg := piece .count (several digit)

/-- A letter, then letters, digits, underscores and hyphens. -/
def name : Peg := seq (one Char.isAlpha) (many (one isNameChar))

def sound : Peg := seq (literal '@') name

/-- Perhaps an accent, a weight, and perhaps a sound. -/
def hit : Peg := piece .hit (seq (opt (literal '!')) (seq weight (opt sound)))

/-- A tilde and perhaps a weight. -/
def rest : Peg := seq (literal '~') (opt weight)

/-- A rest or a hit, in this order. -/
def step : Peg := either rest hit

/-- Steps in brackets, with commas between them or without. -/
def weights : Peg :=
  spaced (literal '[') (spaced step (spaced (spacedMany (spaced (opt (literal ',')) step))
    (literal ']')))

/-- Weights or a count, perhaps with a span behind a colon. -/
def group : Peg := spaced (either weights count) (opt (spaced (literal ':') span))

/-- Groups between bars, up to the end of the text. -/
def pattern : Peg :=
  spaced nothing (spaced group (spaced (spacedMany (spaced (literal '|') group)) atEnd))

end Rules

/-- The notation accepts a text with some pieces in it. -/
def Accepts (text : String) (pieces : List Piece) : Prop :=
  Rules.pattern.Runs text.toList (some (pieces, []))

end Metrograph.Rhythm
