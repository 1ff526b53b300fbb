/-
Which trees the notation can spell, and all the ways to write one.

# Trees

A tree keeps the characters of its tokens. `WellFormed` says that they are
characters the token may have: digits where digits are read, a letter at
the start of a name, and at least one digit in every number.

# Texts

`Written` lays a tree out: its tokens in order, with any blanks between
two tokens of a pattern, a group or a list of weights, and between two
steps a comma, a blank, or both. A step is written without blanks, as its
tokens could run into those of the next step otherwise.

# Heads

A reader never goes back into a token, so what it reads depends on what
the text after the token begins with. Every token has one lemma about what
it begins with, and all such facts are drawn from these.
-/
import Metrograph.Proofs.Text.Runs
import Metrograph.Rhythm.Reader

namespace Metrograph.Rhythm

open Reader (isBlank)
open Text (Digits Followed Stops eq_false_of_any followed_cons isDigit_beq stops_cons stops_nil)

-- =============================================================== trees

/-- Digits, perhaps with a point and more digits, or a point and digits. -/
def Numeral.WellFormed (n : Numeral) : Prop :=
  match n.fraction with
  | none => n.whole ≠ [] ∧ Digits n.whole
  | some digits => Digits n.whole ∧ Digits digits ∧ (n.whole ≠ [] ∨ digits ≠ [])

instance : (n : Numeral) → Decidable n.WellFormed
  | ⟨whole, none⟩ => inferInstanceAs (Decidable (whole ≠ [] ∧ Digits whole))
  | ⟨whole, some digits⟩ =>
    inferInstanceAs (Decidable (Digits whole ∧ Digits digits ∧ (whole ≠ [] ∨ digits ≠ [])))

/-- A letter, then letters, digits, underscores and hyphens. -/
def SoundName : List Char → Prop
  | [] => False
  | c :: rest => c.isAlpha = true ∧ ∀ d ∈ rest, isNameChar d = true

instance : DecidablePred SoundName
  | [] => inferInstanceAs (Decidable False)
  | _ :: rest => @instDecidableAnd _ _ inferInstance (List.decidableBAll _ rest)

/-- A step whose numbers and whose sound can be spelled. -/
def Step.WellFormed : Step → Prop
  | .rest weight => ∀ n ∈ weight, n.WellFormed
  | .hit h => h.weight.WellFormed ∧ ∀ name ∈ h.sound, SoundName name

instance : (s : Step) → Decidable s.WellFormed
  | .rest weight => inferInstanceAs (Decidable (∀ n ∈ weight, n.WellFormed))
  | .hit h => inferInstanceAs (Decidable (h.weight.WellFormed ∧ ∀ name ∈ h.sound, SoundName name))

/-- A count with a digit, or weights that can all be spelled. -/
def Division.WellFormed : Division → Prop
  | .count digits => digits ≠ [] ∧ Digits digits
  | .weights first others => ∀ s ∈ first :: others, s.WellFormed

instance : (d : Division) → Decidable d.WellFormed
  | .count digits => inferInstanceAs (Decidable (digits ≠ [] ∧ Digits digits))
  | .weights first others => inferInstanceAs (Decidable (∀ s ∈ first :: others, s.WellFormed))

/-- A group whose division and whose span can be spelled. -/
def Group.WellFormed (g : Group) : Prop := g.division.WellFormed ∧ ∀ n ∈ g.span, n.WellFormed

instance (g : Group) : Decidable g.WellFormed :=
  inferInstanceAs (Decidable (g.division.WellFormed ∧ ∀ n ∈ g.span, n.WellFormed))

/-- All groups can be spelled. -/
def Pattern.WellFormed (p : Pattern) : Prop := ∀ g ∈ p.groups, g.WellFormed

instance (p : Pattern) : Decidable p.WellFormed :=
  inferInstanceAs (Decidable (∀ g ∈ p.groups, g.WellFormed))

-- =============================================================== texts

/-- Nothing but blanks. -/
def Blanks (cs : List Char) : Prop := ∀ c ∈ cs, isBlank c = true

instance : DecidablePred Blanks := fun cs => List.decidableBAll _ cs

/-- What may stand between two steps. -/
inductive Separates : List Char → Prop
  | comma {a b : List Char} (before : Blanks a) (after : Blanks b) : Separates (a ++ ',' :: b)
  | blank {a : List Char} (blanks : Blanks a) (some : a ≠ []) : Separates a

/-- Steps, each after a separator. -/
inductive Listed : List Step → List Char → Prop
  | nil : Listed [] []
  | cons {s : Step} {rest : List Step} {gap cs : List Char} (separates : Separates gap)
      (listed : Listed rest cs) : Listed (s :: rest) (gap ++ (s.chars ++ cs))

/-- A count is its digits. Weights stand in brackets, with blanks inside of them. -/
inductive Division.Written : Division → List Char → Prop
  | count (digits : List Char) : Written (.count digits) digits
  | weights {first : Step} {others : List Step} {a cs b : List Char} (opened : Blanks a)
      (listed : Listed others cs) (closed : Blanks b) :
      Written (.weights first others) ('[' :: (a ++ (first.chars ++ (cs ++ (b ++ [']'])))))

/-- A group is its division, perhaps with a colon and its span. -/
inductive Group.Written : Group → List Char → Prop
  | plain {division : Division} {cs : List Char} (written : division.Written cs) :
      Written ⟨division, none⟩ cs
  | spanned {division : Division} {cs a b : List Char} (written : division.Written cs)
      (before : Blanks a) (after : Blanks b) (n : Numeral) :
      Written ⟨division, some n⟩ (cs ++ (a ++ ':' :: (b ++ n.chars)))

/-- Groups, each after a bar. -/
inductive Joined : List Group → List Char → Prop
  | nil : Joined [] []
  | cons {g : Group} {rest : List Group} {a b cs more : List Char} (before : Blanks a)
      (after : Blanks b) (written : g.Written cs) (joined : Joined rest more) :
      Joined (g :: rest) (a ++ '|' :: (b ++ (cs ++ more)))

/-- The groups of a pattern, with blanks in front and behind. -/
inductive Pattern.Written : Pattern → List Char → Prop
  | groups {first : Group} {others : List Group} {a cs more b : List Char} (opened : Blanks a)
      (written : first.Written cs) (joined : Joined others more) (closed : Blanks b) :
      Written ⟨first, others⟩ (a ++ (cs ++ (more ++ b)))

-- =============================================================== heads

variable {p : Char → Bool} {c : Char} {cs rest marks : List Char}

/-- Only a space and a tab are blanks; a line break is not. -/
theorem isBlank_iff : isBlank c = true ↔ c = ' ' ∨ c = '\t' := by
  unfold isBlank
  rw [Bool.or_eq_true, beq_iff_eq, beq_iff_eq]

/-- Blanks in front of a text let it begin with a blank as well. -/
theorem Blanks.followed (blank : Blanks cs) (space : ' ' ∈ marks) (tab : '\t' ∈ marks)
    (h : Followed marks rest) : Followed marks (cs ++ rest) := by
  cases cs with
  | nil => exact h
  | cons c cs =>
      rcases isBlank_iff.mp (blank c List.mem_cons_self) with rfl | rfl
      · exact followed_cons space
      · exact followed_cons tab

theorem isDigit_isBlank (digit : c.isDigit = true) : isBlank c = false := by
  unfold isBlank
  rw [isDigit_beq rfl digit, isDigit_beq rfl digit]
  rfl

/-- A number begins with a digit or a point. -/
theorem Numeral.WellFormed.stops {n : Numeral} (h : n.WellFormed)
    (digit : ∀ c : Char, c.isDigit = true → p c = false) (point : p '.' = false)
    (rest : List Char) : Stops p (n.chars ++ rest) := by
  obtain ⟨whole, fraction⟩ := n
  cases fraction with
  | none => exact Digits.stops h.2 h.1 digit rest
  | some digits =>
      cases whole with
      | nil => exact stops_cons point
      | cons c whole => exact stops_cons (digit c (h.1 c List.mem_cons_self))

/-- A number has at least one character. -/
theorem Numeral.WellFormed.chars_ne_nil {n : Numeral} (h : n.WellFormed) : n.chars ≠ [] := by
  obtain ⟨whole, fraction⟩ := n
  cases fraction with
  | none => exact h.1
  | some digits => exact List.append_ne_nil_of_right_ne_nil whole (List.cons_ne_nil '.' digits)

/-- The digits before the point end at the point. -/
theorem Numeral.WellFormed.takeWhile_chars {n : Numeral} (h : n.WellFormed) :
    n.chars.takeWhile Char.isDigit = n.whole := by
  obtain ⟨whole, fraction⟩ := n
  cases fraction with
  | none =>
      have all := Stops.takeWhile stops_nil h.2
      rwa [List.append_nil] at all
  | some digits => exact Stops.takeWhile (stops_cons rfl) h.1

/-- What is left of a number behind its first digits. -/
theorem Numeral.WellFormed.dropWhile_chars {n : Numeral} (h : n.WellFormed) :
    n.chars.dropWhile Char.isDigit = (n.fraction.map ('.' :: ·)).getD [] := by
  obtain ⟨whole, fraction⟩ := n
  cases fraction with
  | none =>
      have all := Stops.dropWhile stops_nil h.2
      rwa [List.append_nil] at all
  | some digits => exact Stops.dropWhile (stops_cons rfl) h.1

/-- What is written of a sound. -/
def soundChars : Option (List Char) → List Char
  | none => []
  | some name => '@' :: name

theorem hit_chars (accent : Bool) (weight : Numeral) (sound : Option (List Char)) :
    (Step.hit ⟨accent, weight, sound⟩).chars
      = (if accent then ['!'] else []) ++ (weight.chars ++ soundChars sound) := by
  cases sound <;> exact List.append_assoc _ _ _

/-- A step has at least one character. -/
theorem Step.WellFormed.chars_ne_nil {s : Step} (wf : s.WellFormed) : s.chars ≠ [] := by
  cases s with
  | rest weight => exact List.cons_ne_nil '~' _
  | hit h =>
      obtain ⟨accent, weight, sound⟩ := h
      rw [hit_chars]
      exact List.append_ne_nil_of_right_ne_nil _
        (List.append_ne_nil_of_left_ne_nil (Numeral.WellFormed.chars_ne_nil wf.1) _)

/-- A hit begins with an accent or a number. -/
theorem Step.WellFormed.stops_hit {h : Hit} (wf : (Step.hit h).WellFormed)
    (digit : ∀ c : Char, c.isDigit = true → p c = false)
    (others : ['!', '.'].any p = false) (rest : List Char) :
    Stops p ((Step.hit h).chars ++ rest) := by
  obtain ⟨accent, weight, sound⟩ := h
  rw [hit_chars]
  cases accent with
  | true => exact stops_cons (eq_false_of_any others (by decide))
  | false =>
      show Stops p (weight.chars ++ soundChars sound ++ rest)
      rw [List.append_assoc]
      exact Numeral.WellFormed.stops wf.1 digit (eq_false_of_any others (by decide)) _

/-- A step begins with a tilde, an accent or a number. -/
theorem Step.WellFormed.stops {s : Step} (wf : s.WellFormed)
    (digit : ∀ c : Char, c.isDigit = true → p c = false)
    (others : ['~', '!', '.'].any p = false) (rest : List Char) :
    Stops p (s.chars ++ rest) := by
  cases s with
  | rest weight => exact stops_cons (eq_false_of_any others (by decide))
  | hit h =>
      rw [List.any_cons, Bool.or_eq_false_iff] at others
      exact stops_hit wf digit others.2 rest

end Metrograph.Rhythm
