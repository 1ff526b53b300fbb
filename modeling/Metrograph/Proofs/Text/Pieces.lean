/-
The pieces of a text between separators.

A text with separators in it is gaps and pieces by turns: a gap has
separators alone and a piece has none, there may be a gap at either end, and
there is one between two pieces (`Spaced`). Cutting the text at every
separator and leaving out what is empty finds the pieces (`spaced_iff`), so
every text has pieces and it has them in one way.

Reading from the front, a separator widens the first gap, and any other
character goes into the first piece if no gap is before it, else it is a
piece of its own (`exists_spaced_letter`).
-/
import Mathlib.Data.List.Basic
import Metrograph.Text.Character

namespace Metrograph.Text

variable {p : Char → Bool} {gap piece cs text : List Char} {ps : List (List Char)}

/-- The pieces of a text between the separators `p`. -/
inductive Spaced (p : Char → Bool) : List (List Char) → List Char → Prop
  | gap {gap : List Char} (separators : ∀ c ∈ gap, p c = true) : Spaced p [] gap
  | piece {gap piece text : List Char} {ps : List (List Char)}
      (separators : ∀ c ∈ gap, p c = true) (some : piece ≠ []) (solid : ∀ c ∈ piece, p c = false)
      (ends : ∀ c ∈ text.head?, p c = true) (rest : Spaced p ps text) :
      Spaced p (piece :: ps) (gap ++ (piece ++ text))

/-- Cuts a text at its separators and leaves out what is empty. -/
def pieces (p : Char → Bool) (cs : List Char) : List (List Char) :=
  (splitChars p cs).filter (· ≠ [])

-- ============================================================== cutting

/-- A text is cut as lists are. -/
theorem splitChars_eq_splitOnP (p : Char → Bool) (cs : List Char) :
    splitChars p cs = cs.splitOnP p := by
  induction cs with
  | nil => rfl
  | cons c rest ih =>
      rw [splitChars, ih, List.splitOnP_cons_eq_if_modifyHead]
      split
      · rfl
      · cases cut : rest.splitOnP p with
        | nil => exact absurd cut (List.splitOnP_ne_nil p rest)
        | cons piece others => rfl

/-- A separator in front makes no piece. -/
theorem pieces_separator {c : Char} (separator : p c = true) (cs : List Char) :
    pieces p (c :: cs) = pieces p cs := by
  unfold pieces
  rw [splitChars, if_pos separator]
  exact List.filter_cons_of_neg (by decide)

/-- Any number of separators in front make no piece. -/
theorem pieces_gap (separators : ∀ c ∈ gap, p c = true) (cs : List Char) :
    pieces p (gap ++ cs) = pieces p cs := by
  induction gap with
  | nil => rfl
  | cons c rest ih =>
      rw [List.cons_append, pieces_separator (separators c List.mem_cons_self)]
      exact ih fun d hd => separators d (List.mem_cons_of_mem c hd)

/-- A piece in front goes to the next separator. -/
theorem pieces_piece (some : piece ≠ []) (solid : ∀ c ∈ piece, p c = false)
    (ends : ∀ c ∈ text.head?, p c = true) :
    pieces p (piece ++ text) = piece :: pieces p text := by
  have kept (cuts : List (List Char)) :
      (piece :: cuts).filter (· ≠ []) = piece :: cuts.filter (· ≠ []) :=
    List.filter_cons_of_pos (decide_eq_true some)
  cases text with
  | nil =>
      unfold pieces
      rw [List.append_nil, splitChars_eq_splitOnP, List.splitOnP_eq_singleton solid, kept]
      rfl
  | cons c rest =>
      have separator : p c = true := ends c rfl
      rw [pieces_separator separator]
      unfold pieces
      rw [splitChars_eq_splitOnP, List.splitOnP_append_cons_of_forall_mem solid c separator, kept,
        splitChars_eq_splitOnP]

/-- Pieces with separators between them are what the text is cut into. -/
theorem Spaced.pieces_eq (h : Spaced p ps text) : pieces p text = ps := by
  induction h with
  | gap separators =>
      have none := pieces_gap separators []
      rwa [List.append_nil] at none
  | piece separators some solid ends _ ih =>
      rw [pieces_gap separators, pieces_piece some solid ends, ih]

-- ============================================================== finding

/-- A text may begin with a piece. -/
theorem Spaced.first (some : piece ≠ []) (solid : ∀ c ∈ piece, p c = false)
    (ends : ∀ c ∈ text.head?, p c = true) (rest : Spaced p ps text) :
    Spaced p (piece :: ps) (piece ++ text) := by
  have none : ∀ c ∈ ([] : List Char), p c = true := nofun
  exact .piece none some solid ends rest

/-- More separators may stand in front. -/
theorem Spaced.widen (h : Spaced p ps text) (separators : ∀ c ∈ gap, p c = true) :
    Spaced p ps (gap ++ text) := by
  have wider {gap' : List Char} (more : ∀ c ∈ gap', p c = true) : ∀ c ∈ gap ++ gap', p c = true := by
    intro c hc
    rcases List.mem_append.mp hc with before | after
    · exact separators c before
    · exact more c after
  cases h with
  | gap more => exact .gap (wider more)
  | piece more some solid ends rest =>
      rw [← List.append_assoc]
      exact .piece (wider more) some solid ends rest

theorem Spaced.separator {c : Char} (separator : p c = true) (h : Spaced p ps text) :
    Spaced p ps (c :: text) := by
  have separators : ∀ d ∈ [c], p d = true := fun d hd => List.mem_singleton.mp hd ▸ separator
  exact h.widen separators

/-- A character other than a separator goes into the first piece or is one. -/
theorem exists_spaced_letter {c : Char} (letter : p c = false) (h : Spaced p ps text) :
    ∃ qs, Spaced p qs (c :: text) := by
  have alone : ∀ d ∈ [c], p d = false := fun d hd => List.mem_singleton.mp hd ▸ letter
  cases h with
  | gap separators =>
      have ends : ∀ d ∈ text.head?, p d = true := fun d hd => separators d (List.mem_of_mem_head? hd)
      exact ⟨_, .first (List.cons_ne_nil c []) alone ends (.gap separators)⟩
  | @piece gap piece text ps separators some solid ends rest =>
      cases gap with
      | nil =>
          have longer : ∀ d ∈ c :: piece, p d = false := by
            intro d hd
            rcases List.mem_cons.mp hd with rfl | inside
            · exact letter
            · exact solid d inside
          exact ⟨_, .first (List.cons_ne_nil c piece) longer ends rest⟩
      | cons d gap =>
          have parted : ∀ e ∈ (d :: gap ++ (piece ++ text)).head?, p e = true := by
            intro e he
            cases he
            exact separators _ List.mem_cons_self
          exact ⟨_, .first (List.cons_ne_nil c []) alone parted
            (.piece separators some solid ends rest)⟩

/-- Every text is made of pieces and separators, by induction from its end. -/
theorem exists_spaced (p : Char → Bool) (cs : List Char) : ∃ ps, Spaced p ps cs := by
  induction cs with
  | nil => exact ⟨[], .gap nofun⟩
  | cons c rest ih =>
      obtain ⟨ps, spaced⟩ := ih
      by_cases separator : p c = true
      · exact ⟨ps, spaced.separator separator⟩
      · exact exists_spaced_letter (Bool.eq_false_iff.mpr separator) spaced

/-- Cutting a text finds its pieces. -/
theorem spaced_iff : Spaced p ps text ↔ pieces p text = ps := by
  refine ⟨Spaced.pieces_eq, ?_⟩
  rintro rfl
  obtain ⟨qs, spaced⟩ := exists_spaced p text
  rwa [spaced.pieces_eq]

-- ============================================================== writing

/-- Every character of a text is a separator or in one of its pieces. -/
theorem Spaced.mem (h : Spaced p ps text) {c : Char} (hc : c ∈ text) :
    p c = true ∨ ∃ piece ∈ ps, c ∈ piece := by
  induction h with
  | gap separators => exact Or.inl (separators c hc)
  | piece separators _ _ _ _ ih =>
      rcases List.mem_append.mp hc with before | hc
      · exact Or.inl (separators c before)
      · rcases List.mem_append.mp hc with inside | after
        · exact Or.inr ⟨_, List.mem_cons_self, inside⟩
        · refine (ih after).imp_right ?_
          rintro ⟨piece, member, inside⟩
          exact ⟨piece, List.mem_cons_of_mem _ member, inside⟩

/-- Separators behind a text are no part of its pieces. -/
theorem Spaced.append (h : Spaced p ps text) (separators : ∀ c ∈ gap, p c = true) :
    Spaced p ps (text ++ gap) := by
  induction h with
  | gap more => exact (Spaced.gap separators).widen more
  | piece more some solid ends _ ih =>
      rw [List.append_assoc, List.append_assoc]
      refine .piece more some solid (fun c hc => ?_) ih
      rw [List.head?_append, Option.mem_def, Option.or_eq_some_iff] at hc
      rcases hc with first | ⟨-, first⟩
      · exact ends c first
      · exact separators c (List.mem_of_mem_head? first)

/-- Pieces with one separator between them. -/
theorem spaced_intercalate {c : Char} (separator : p c = true)
    (each : ∀ piece ∈ ps, piece ≠ [] ∧ ∀ d ∈ piece, p d = false) :
    Spaced p ps ([c].intercalate ps) := by
  induction ps with
  | nil => exact .gap nofun
  | cons piece ps ih =>
      obtain ⟨some, solid⟩ := each piece List.mem_cons_self
      have later := ih fun other member => each other (List.mem_cons_of_mem piece member)
      cases ps with
      | nil =>
          have none : ∀ c ∈ ([] : List Char).head?, p c = true := nofun
          have last := Spaced.first some solid none later
          rw [List.append_nil] at last
          rwa [List.intercalate_singleton]
      | cons next others =>
          have parted : ∀ d ∈ (c :: [c].intercalate (next :: others)).head?, p d = true := by
            intro d hd
            cases hd
            exact separator
          rw [List.intercalate_cons_cons, List.append_assoc, List.singleton_append]
          exact .first some solid parted (later.separator separator)

end Metrograph.Text
