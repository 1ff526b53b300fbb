/-
A text is refused for the right reason.

# Verdicts

What the grammar does not accept is refused as unreadable. A text that it
accepts is judged by its pieces (`verdict`): the first one with a fault
decides, and if there is none, the number of hits. A number is judged by
the rational that it spells, rounded to the nearest number there is, so a
weight of many digits may be as good as zero, and a span that is a little
too short may be long enough.

# Compilations

A compilation measures the groups of the tree from left to right and stops
at the first error. So the error of each measure is the first fault among
the pieces of what it measures (`fault_of_group` and the lemmas before
it), in the order in which the grammar has them, and a measure without
one makes as many notes as its pieces have hits.
-/
import Metrograph.Proofs.Decimal.Literal
import Metrograph.Proofs.Rhythm.Conformance
import Metrograph.Proofs.Rhythm.Tags

namespace Metrograph.Rhythm

open Binary64 (HasValue nearest limit hasValue_zero hasValue_ofDecimal exact_ofDecimal)

-- ============================================================= verdicts

/-- The rational that digits with at most one point among them spell. -/
def spelled (cs : List Char) : ℚ :=
  let fraction := (cs.dropWhile Char.isDigit).drop 1
  Decimal.natOfDigits (cs.takeWhile Char.isDigit ++ fraction) / 10 ^ fraction.length

namespace Piece

def text (p : Piece) : String := String.ofList p.chars

/-- The number that a piece is taken for. -/
def held (p : Piece) : ℚ := nearest (spelled p.chars)

/-- What is wrong with a piece, if anything is. -/
def fault? (p : Piece) : Option Fault :=
  match p.part with
  | .count =>
    if 1 ≤ Decimal.natOfDigits p.chars ∧ Decimal.natOfDigits p.chars ≤ 256 then none
    else some (.count p.text)
  | .weight => if p.held = 0 ∨ limit ≤ p.held then some (.notPositive .weight p.text) else none
  | .span =>
    if p.held = 0 ∨ limit ≤ p.held then some (.notPositive .span p.text)
    else if p.held < 1 / 64 then some (.spanTooShort p.text)
    else none
  | _ => none

/-- How many notes a piece makes. -/
def hits (p : Piece) : ℕ :=
  match p.part with
  | .count => Decimal.natOfDigits p.chars
  | .hit => 1
  | _ => 0

end Piece

/-- The fault in some pieces, or how many notes they make. -/
def verdict (pieces : List Piece) : Except Fault ℕ :=
  match pieces.findSome? Piece.fault? with
  | some fault => .error fault
  | none =>
    let hits := (pieces.map Piece.hits).sum
    if hits = 0 then .error .noHits
    else if 1024 < hits then .error (.tooManyNotes hits)
    else .ok hits

-- ============================================================== numbers

/-- The characters of a number spell its value. -/
theorem spelled_chars {n : Numeral} (wf : n.WellFormed) : spelled n.chars = n.value := by
  unfold spelled
  rw [wf.takeWhile_chars, wf.dropWhile_chars, Numeral.value, exact_ofDecimal]
  cases n.fraction <;> rfl

/-- A numeral in binary64 is the number that its characters are taken for. -/
theorem hasValue_held (kind : Part) {n : Numeral} (wf : n.WellFormed) :
    HasValue n.value (Piece.held ⟨kind, n.chars⟩) := by
  unfold Piece.held
  rw [spelled_chars wf]
  exact hasValue_ofDecimal _ _

theorem spelled_nonneg (cs : List Char) : 0 ≤ spelled cs := by
  unfold spelled
  positivity

/-- A number is admissible unless it is zero or beyond the range. -/
theorem admissible_iff (kind : Part) {n : Numeral} (wf : n.WellFormed) :
    Admissible (n.value : Float)
      ↔ ¬ (Piece.held ⟨kind, n.chars⟩ = 0 ∨ limit ≤ Piece.held ⟨kind, n.chars⟩) := by
  have held := hasValue_held kind wf
  have nonneg : 0 ≤ Piece.held ⟨kind, n.chars⟩ := Binary64.nearest_nonneg (spelled_nonneg _)
  have finite : Scalar.isFinite (n.value : Float) = true ↔ _ := held.isFinite_iff
  have positive := hasValue_zero.lt_iff held
  unfold Admissible
  rw [finite, positive, abs_of_nonneg nonneg, not_or, not_le, and_comm, nonneg.lt_iff_ne, ne_comm]

-- =============================================================== errors

/-- The error of what has failed. -/
def error? {ε β : Type} : Except ε β → Option ε
  | .error e => some e
  | .ok _ => none

variable {ε β γ : Type}

/-- The first step that fails decides the fault of a sequence. -/
theorem error?_bind {x : Except ε β} {f : β → Except ε γ} {o : Option ε}
    (later : ∀ b, x = .ok b → error? (f b) = o) : error? (x >>= f) = (error? x).or o := by
  cases x with
  | error e => rfl
  | ok b => exact later b rfl

theorem error?_map {x : Except ε β} (f : β → γ) :
    error? (x >>= fun b => pure (f b)) = error? x := by
  cases x <;> rfl

/-- A sequence of measures fails with the first fault. -/
theorem error?_mapM {f : β → Except Fault γ} {pieces : β → List Piece} {xs : List β}
    (each : ∀ x ∈ xs, error? (f x) = (pieces x).findSome? Piece.fault?) :
    error? (xs.mapM f) = (xs.flatMap pieces).findSome? Piece.fault? := by
  induction xs with
  | nil => rfl
  | cons x xs ih =>
      have later := ih fun y hy => each y (List.mem_cons_of_mem x hy)
      rw [List.mapM_cons, List.flatMap_cons, List.findSome?_append, ← each x List.mem_cons_self,
        ← later]
      exact error?_bind fun y _ => error?_map _

-- ============================================================= measures

/-- A number is refused exactly if the number that its piece is taken for is
zero or infinite. -/
theorem fault_of_positive (what : Measure) (kind : Part) {n : Numeral} (wf : n.WellFormed) :
    error? (positive what n : Except Fault Float)
      = if Piece.held ⟨kind, n.chars⟩ = 0 ∨ limit ≤ Piece.held ⟨kind, n.chars⟩ then
          some (.notPositive what n.text)
        else none := by
  have admissible := admissible_iff kind wf
  unfold Admissible at admissible
  unfold positive
  dsimp only
  split_ifs with good bad bad
  · exact absurd bad (admissible.mp good)
  · rfl
  · rfl
  · exact absurd (admissible.mpr bad) good

/-- Measuring a step finds the first fault of its pieces. -/
theorem fault_of_step {s : Step} (wf : s.WellFormed) :
    error? (s.measure : Except Fault (Segment Float)) = s.pieces.findSome? Piece.fault? := by
  cases s with
  | rest weight =>
      cases weight with
      | none => rfl
      | some n =>
          refine (error?_map _).trans ((fault_of_positive .weight .weight (wf n rfl)).trans ?_)
          exact List.findSome?_singleton.symm
  | hit h =>
      refine (error?_map _).trans ((fault_of_positive .weight .weight wf.1).trans ?_)
      show Piece.fault? ⟨.weight, h.weight.chars⟩ = List.findSome? Piece.fault? [_, _]
      rw [List.findSome?_cons, List.findSome?_singleton]
      cases Piece.fault? ⟨.weight, h.weight.chars⟩ <;> rfl

/-- Measuring a division finds the first fault of its pieces. -/
theorem fault_of_division {d : Division} (wf : d.WellFormed) :
    error? (d.measure : Except Fault (List (Segment Float))) = d.pieces.findSome? Piece.fault? := by
  cases d with
  | count digits =>
      show _ = List.findSome? Piece.fault? [_]
      rw [List.findSome?_singleton]
      unfold Division.measure Piece.fault?
      dsimp only
      split_ifs with bounded bad good
      · rfl
      · exact absurd bounded bad
      · exact absurd good bounded
      · rfl
  | weights first others => exact error?_mapM fun s hs => fault_of_step (wf s hs)

/-- Measuring a span finds the fault of its piece; a span that is not written has none. -/
theorem fault_of_span {n : Option Numeral} (wf : ∀ m ∈ n, m.WellFormed) :
    error? (measureSpan n : Except Fault Float)
      = (n.map fun m => (⟨.span, m.chars⟩ : Piece)).toList.findSome? Piece.fault? := by
  cases n with
  | none => rfl
  | some n =>
      have well := wf n rfl
      have shortest : HasValue minSpan (1 / 64) := ⟨by decide +kernel, by decide +kernel⟩
      have short := (hasValue_held .span well).lt_iff shortest
      have later : ∀ x : Float, positive .span n = .ok x →
          error? (if x < minSpan then .error (.spanTooShort n.text) else .ok x : Except Fault Float)
            = if Piece.held ⟨.span, n.chars⟩ < 1 / 64 then some (.spanTooShort n.text)
              else none := by
        intro x measured
        rw [eq_value_of_positive measured]
        split_ifs with less longer longer
        · rfl
        · exact absurd (short.mp less) longer
        · exact absurd (short.mpr longer) less
        · rfl
      refine (error?_bind later).trans ?_
      rw [fault_of_positive .span .span well]
      show _ = List.findSome? Piece.fault? [_]
      rw [List.findSome?_singleton]
      unfold Piece.fault?
      dsimp only
      split_ifs <;> rfl

/-- Measuring a group finds the first fault of its pieces: the division is
measured before the span. -/
theorem fault_of_group {g : Group} (wf : g.WellFormed) :
    error? (g.measure : Except Fault (TimedGroup Float)) = g.pieces.findSome? Piece.fault? := by
  refine (error?_bind fun segments _ => error?_map _).trans ?_
  rw [fault_of_division wf.1, fault_of_span wf.2, ← List.findSome?_append]
  rfl

-- ================================================================ hits

/-- A group has as many origins as sounding segments. -/
theorem length_originsOf (group step : ℕ) (sounding : List (Option (Bool × Option String))) :
    (originsOf group step sounding).length = sounding.countP Option.isSome := by
  induction sounding generalizing step with
  | nil => rfl
  | cons s rest ih =>
      cases s with
      | none =>
          rw [List.countP_cons_of_neg (by simp)]
          exact ih (step + 1)
      | some hit =>
          rw [List.countP_cons_of_pos rfl, ← ih (step + 1)]
          rfl

/-- A hit makes one note, a rest none. -/
theorem hits_of_step (s : Step) :
    (s.pieces.map Piece.hits).sum = if s.accentAndSound.isSome then 1 else 0 := by
  cases s with
  | rest weight => cases weight <;> rfl
  | hit h => rfl

/-- A division makes as many notes as segments of it sound. -/
theorem hits_of_division (d : Division) :
    (d.pieces.map Piece.hits).sum = d.sounding.countP Option.isSome := by
  cases d with
  | count digits =>
      show Decimal.natOfDigits digits + 0 = (List.replicate _ _).countP _
      rw [List.countP_replicate, add_zero]
      rfl
  | weights first others =>
      show (((first :: others).flatMap Step.pieces).map Piece.hits).sum
        = ((first :: others).map Step.accentAndSound).countP Option.isSome
      generalize first :: others = steps
      induction steps with
      | nil => rfl
      | cons s rest ih =>
          rw [List.flatMap_cons, List.map_append, List.sum_append, ih, hits_of_step, List.map_cons,
            List.countP_cons, add_comm]

/-- A pattern has as many hits as its pieces make. -/
theorem length_originsFrom (group : ℕ) (groups : List Group) :
    (originsFrom group groups).length = ((groups.flatMap Group.pieces).map Piece.hits).sum := by
  induction groups generalizing group with
  | nil => rfl
  | cons g rest ih =>
      have here : (g.pieces.map Piece.hits).sum = g.division.sounding.countP Option.isSome := by
        unfold Group.pieces
        rw [List.map_append, List.sum_append, hits_of_division]
        cases g.span <;> rfl
      rw [List.flatMap_cons, List.map_append, List.sum_append, here, ← ih (group + 1),
        ← length_originsOf group 0, ← List.length_append]
      rfl

-- ========================================================= compilations

/-- A pattern that is read is judged by its pieces. -/
theorem verdict_of_pattern {text : String} {p : Pattern} (parsed : parse text = .ok p)
    (wf : p.WellFormed) :
    (compile text : Except Fault (Loop Float)).map (fun loop => loop.notes.length)
      = verdict p.pieces := by
  have faults : error? (p.groups.mapM Group.measure : Except Fault (List (TimedGroup Float)))
      = p.pieces.findSome? Piece.fault? := error?_mapM fun g hg => fault_of_group (wf g hg)
  unfold compile verdict
  rw [parsed, ← faults]
  show Except.map _ (p.groups.mapM Group.measure >>= _) = _
  cases measured : (p.groups.mapM Group.measure : Except Fault (List (TimedGroup Float))) with
  | error fault => rfl
  | ok groups =>
      have notes : List.Forall₂ Note.ComesFrom (placeGroups Scalar.zero .downbeat groups).1
          p.origins := forall₂_placeGroups (mapM_eq_pure_iff.mp measured) Scalar.zero rfl
      have count : (placeGroups Scalar.zero .downbeat groups).1.length
          = (p.pieces.map Piece.hits).sum := notes.length_eq.trans (length_originsFrom 0 p.groups)
      show Except.map _ (if (placeGroups Scalar.zero .downbeat groups).1 = [] then _
        else if maxNotes < (placeGroups Scalar.zero .downbeat groups).1.length then _ else _)
          = if (p.pieces.map Piece.hits).sum = 0 then _ else _
      rw [← count]
      simp only [← List.length_eq_zero_iff]
      unfold maxNotes
      split_ifs <;> rfl

-- ============================================================= literals

/-- A piece that is spelled as a number is. -/
def Piece.IsNumeral (p : Piece) : Prop := ∃ n : Numeral, n.WellFormed ∧ p.chars = n.chars

/-- A weight or a span. -/
def Piece.IsNumber (p : Piece) : Prop := p.part = .weight ∨ p.part = .span

theorem isNumeral_of_step {s : Step} (wf : s.WellFormed) :
    ∀ piece ∈ s.pieces, piece.IsNumber → piece.IsNumeral := by
  intro piece member number
  cases s with
  | rest weight =>
      cases weight with
      | none => cases member
      | some n =>
          obtain rfl := List.mem_singleton.mp member
          exact ⟨n, wf n rfl, rfl⟩
  | hit h =>
      rcases List.mem_pair.mp member with rfl | rfl
      · exact ⟨h.weight, wf.1, rfl⟩
      · exact absurd number (not_or.mpr ⟨nofun, nofun⟩)

theorem isNumeral_of_division {d : Division} (wf : d.WellFormed) :
    ∀ piece ∈ d.pieces, piece.IsNumber → piece.IsNumeral := by
  intro piece member number
  cases d with
  | count digits =>
      obtain rfl := List.mem_singleton.mp member
      exact absurd number (not_or.mpr ⟨nofun, nofun⟩)
  | weights first others =>
      obtain ⟨s, hs, member⟩ := List.mem_flatMap.mp member
      exact isNumeral_of_step (wf s hs) piece member number

/-- Every weight and every span of a pattern is spelled as a number. -/
theorem isNumeral_of_pattern {p : Pattern} (wf : p.WellFormed) :
    ∀ piece ∈ p.pieces, piece.IsNumber → piece.IsNumeral := by
  intro piece member number
  obtain ⟨g, hg, member⟩ := List.mem_flatMap.mp member
  rcases List.mem_append.mp member with division | span
  · exact isNumeral_of_division (wf g hg).1 piece division number
  · obtain ⟨n, hn, rfl⟩ := Option.map_eq_some_iff.mp (Option.mem_toList.mp span)
    exact ⟨n, (wf g hg).2 n hn, rfl⟩

/-- What is spelled as a number can be read as one, and is the number that the
piece is taken for. -/
theorem readNumber_of_isNumeral {p : Piece} (h : p.IsNumeral) :
    ∃ x, Decimal.readNumber p.text = .ok x ∧ HasValue x p.held := by
  obtain ⟨n, wf, spelling⟩ := h
  have read := Decimal.readNumber_text wf
  rw [← spelled_chars wf, ← spelling] at read
  unfold Numeral.text at read
  rw [← spelling] at read
  exact read

-- ============================================================== refusals

/-- A fault in a piece is none of the text as a whole. -/
theorem fault?_ne_unreadable (p : Piece) (m : Misreading) : p.fault? ≠ some (.unreadable m) := by
  unfold Piece.fault?
  split
  next => split_ifs <;> exact nofun
  next => split_ifs <;> exact nofun
  next => split_ifs <;> exact nofun
  next => exact nofun

/-- Whatever is wrong with the pieces, the text could be read. -/
theorem verdict_ne_unreadable (pieces : List Piece) (m : Misreading) :
    verdict pieces ≠ .error (.unreadable m) := by
  unfold verdict
  cases found : pieces.findSome? Piece.fault? with
  | none =>
      dsimp only
      split_ifs <;> exact nofun
  | some fault =>
      obtain ⟨p, -, faulty⟩ := List.exists_of_findSome?_eq_some found
      rintro ⟨⟩
      exact fault?_ne_unreadable p m faulty

/-- A text is unreadable if and only if the grammar does not accept it. What
it accepts is judged by its pieces in the order of the text: the first one
with a fault is blamed, and without any the hits are counted; and all numbers
among the pieces are literals. -/
theorem compile_verdict (text : String) :
    ((∃ m, (compile text : Except Fault (Loop Float)) = .error (.unreadable m))
      ↔ ¬ ∃ pieces, Accepts text pieces)
    ∧ ∀ pieces, Accepts text pieces →
      (compile text : Except Fault (Loop Float)).map (fun loop => loop.notes.length)
          = verdict pieces
        ∧ ∀ p ∈ pieces, p.part = .weight ∨ p.part = .span →
          ∃ x, Decimal.readNumber p.text = .ok x ∧ HasValue x p.held := by
  have judged : ∀ pieces, Accepts text pieces →
      (compile text : Except Fault (Loop Float)).map (fun loop => loop.notes.length)
        = verdict pieces := by
    intro pieces accepts
    obtain ⟨p, parsed, wf, rfl⟩ := pattern_of_accepts accepts
    exact verdict_of_pattern parsed wf
  refine ⟨⟨?_, fun refuses => ?_⟩, fun pieces accepts => ⟨judged pieces accepts, ?_⟩⟩
  · rintro ⟨m, unreadable⟩ ⟨pieces, accepts⟩
    have fault := judged pieces accepts
    rw [unreadable] at fault
    exact verdict_ne_unreadable pieces m fault.symm
  · rcases parse_cases text with ⟨p, -, -, accepts⟩ | ⟨m, failed, -⟩
    · exact absurd ⟨_, accepts⟩ refuses
    · refine ⟨m, ?_⟩
      unfold compile
      rw [failed]
      rfl
  · obtain ⟨p, -, wf, rfl⟩ := pattern_of_accepts accepts
    exact fun piece member number =>
      readNumber_of_isNumeral (isNumeral_of_pattern wf piece member number)

/-- A text with a weight of zero, a short span and a large count. -/
def faultyText : String := "[1@kick ~0.00, 1]:.001 | 300"

/-- The weight is blamed, since it comes first. -/
theorem compile_verdict_first_fault :
    (∃ pieces, Accepts faultyText pieces
      ∧ pieces.map Piece.text = ["1", "1@kick", "0.00", "1", "1", ".001", "300"]
      ∧ verdict pieces = .error (.notPositive .weight "0.00"))
    ∧ ¬ ∃ pieces, Accepts "2:1:" pieces := by
  have unreadable : (compile "2:1:" : Except Fault (Loop Float))
      = .error (.unreadable ⟨4, [.endOfText], "2:1:"⟩) := by decide +kernel
  have blamed : (compile faultyText : Except Fault (Loop Float))
      = .error (.notPositive .weight "0.00") := by decide +kernel
  have texts : (parse faultyText).toOption.map (fun p => p.pieces.map Piece.text)
      = some ["1", "1@kick", "0.00", "1", "1", ".001", "300"] := by decide +kernel
  refine ⟨?_, (compile_verdict "2:1:").1.mp ⟨_, unreadable⟩⟩
  rcases parse_cases faultyText with ⟨p, parsed, -, accepts⟩ | ⟨m, failed, -⟩
  · rw [parsed] at texts
    have judged := ((compile_verdict faultyText).2 p.pieces accepts).1
    rw [blamed] at judged
    exact ⟨p.pieces, accepts, Option.some.inj texts, judged.symm⟩
  · rw [failed] at texts
    cases texts

end Metrograph.Rhythm
