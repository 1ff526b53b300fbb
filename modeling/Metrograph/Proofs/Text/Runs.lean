/-
Runs of characters of one kind, and what a text begins with.

A scanner takes characters of a kind as long as there are any, so what it
takes depends on what the text after them begins with. `Stops p cs` says
that `cs` does not begin with a character of the kind `p`, and then a run in
front of `cs` ends there (`Stops.takeWhile`, `Stops.dropWhile`).
-/
import Mathlib.Data.List.TakeWhile

namespace Metrograph.Text

-- =============================================================== heads

/-- A text does not begin with a character of a kind. -/
def Stops (p : Char → Bool) (cs : List Char) : Prop := ∀ c ∈ cs.head?, p c = false

/-- A text begins with one of some characters, if it has any. -/
def Followed (marks cs : List Char) : Prop := ∀ c ∈ cs.head?, c ∈ marks

variable {p : Char → Bool} {c : Char} {cs rest marks : List Char}

/-- A character of a kind is no character of another one. -/
theorem ne_of_kind {d : Char} (kind : p c = true) (other : p d = false) : c ≠ d := by
  rintro rfl
  rw [kind] at other
  cases other

theorem stops_nil : Stops p [] := nofun

theorem stops_cons (h : p c = false) : Stops p (c :: cs) := by
  intro d hd
  cases hd
  exact h

theorem followed_nil : Followed marks [] := nofun

/-- One of the characters stands in front. -/
theorem followed_cons (h : c ∈ marks) : Followed marks (c :: cs) := by
  intro d hd
  cases hd
  exact h

theorem eq_false_of_any (others : marks.any p = false) (h : c ∈ marks) : p c = false :=
  Bool.eq_false_iff.mpr (List.any_eq_false.mp others c h)

/-- Where only some characters can stand, none of another kind stands. -/
theorem Followed.stops (h : Followed marks cs) (others : marks.any p = false) : Stops p cs :=
  fun c hc => eq_false_of_any others (h c hc)

-- ================================================================ runs

/-- Nothing of a kind is taken where none of it stands. -/
theorem Stops.takeWhile_eq_nil (h : Stops p cs) : cs.takeWhile p = [] := by
  cases cs with
  | nil => rfl
  | cons c cs => simp [h c rfl]

/-- Nothing of a kind is dropped where none of it stands. -/
theorem Stops.dropWhile_eq_self (h : Stops p cs) : cs.dropWhile p = cs := by
  cases cs with
  | nil => rfl
  | cons c cs => simp [h c rfl]

/-- A run is taken whole. -/
theorem Stops.takeWhile (h : Stops p rest) (all : ∀ c ∈ cs, p c = true) :
    (cs ++ rest).takeWhile p = cs := by
  rw [List.takeWhile_append_of_pos all, h.takeWhile_eq_nil, List.append_nil]

/-- Nothing but the run is dropped. -/
theorem Stops.dropWhile (h : Stops p rest) (all : ∀ c ∈ cs, p c = true) :
    (cs ++ rest).dropWhile p = rest := by
  rw [List.dropWhile_append_of_pos all, h.dropWhile_eq_self]

/-- What is left behind a run does not begin with one more of its kind. -/
theorem stops_dropWhile (p : Char → Bool) (cs : List Char) : Stops p (cs.dropWhile p) := by
  intro c hc
  have first := List.head?_dropWhile_not p cs
  rw [hc] at first
  exact first

-- ============================================================== digits

/-- Nothing but digits. -/
def Digits (cs : List Char) : Prop := ∀ c ∈ cs, c.isDigit = true

instance : DecidablePred Digits := fun cs => List.decidableBAll _ cs

theorem digits_takeWhile (cs : List Char) : Digits (cs.takeWhile Char.isDigit) :=
  List.all_eq_true.mp List.all_takeWhile

theorem isDigit_beq {m : Char} (other : m.isDigit = false) (digit : c.isDigit = true) :
    (c == m) = false :=
  beq_eq_false_iff_ne.mpr (ne_of_kind digit other)

/-- Digits begin with a digit. -/
theorem Digits.stops (h : Digits cs) (some : cs ≠ [])
    (digit : ∀ c : Char, c.isDigit = true → p c = false) (rest : List Char) :
    Stops p (cs ++ rest) := by
  cases cs with
  | nil => exact absurd rfl some
  | cons c cs => exact stops_cons (digit c (h c List.mem_cons_self))

end Metrograph.Text
