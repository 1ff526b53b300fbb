/-
The readers of the notation read what its grammar says.

# Following an expression

A reader follows an expression if on every text it answers where the
expression takes characters off, and leaves the same text, and fails where
the expression fails (`Follows`); what it answers is related to the pieces
that were kept. There is one rule for each way of putting readers
together, and the rule for a sequence carries the pieces of the earlier
parts along (`Follows.bind`).

Readers differ from the grammar in two ways. They skip blanks in front of
every further step and group, where the grammar skips them between the
turns of a repetition; that is `runs_spacedMany`. And they repeat at most
as many times as there are characters, which is no limit as long as every
turn takes some (`Follows.repeated`).

# Acceptance

So a text is read if and only if the grammar accepts it (`parse_cases`), and
its pieces are those of the tree (`pattern_of_accepts`).
-/
import Metrograph.Proofs.Rhythm.Grammar
import Metrograph.Proofs.Rhythm.RoundTrip

namespace Metrograph.Rhythm

open Peg (Runs literal opt several spaced spacedMany behind)
open Text (Stops stops_cons stops_nil)

namespace Reader

variable {β γ : Type}

-- =========================================================== following

/-- What the reader comes to at a place is what the expression comes to, and
an answer is related to the pieces. -/
inductive FollowsAt (r : Reader β) (e : Peg) (P : β → List Piece → Prop) (place : Place)
    (a : Attempts) : Prop
  | answers (x : β) (after : Place) (a' : Attempts) (ps : List Piece)
      (read : r place a = ⟨some (x, after), a'⟩) (runs : Runs e place.rest (some (ps, after.rest)))
      (holds : P x ps)
  | fails (a' : Attempts) (failed : r place a = ⟨none, a'⟩) (runs : Runs e place.rest none)

/-- The reader follows the expression at every place and whatever was tried before. -/
def Follows (r : Reader β) (e : Peg) (P : β → List Piece → Prop) : Prop :=
  ∀ place a, FollowsAt r e P place a

variable {r first second : Reader β} {next : β → Reader γ} {e e' : Peg} {x : β}
  {P P' : β → List Piece → Prop} {Q : γ → List Piece → Prop}

/-- The relation to the pieces may be replaced by one that follows from it. -/
theorem Follows.weaken (h : Follows r e P) (weaker : ∀ x ps, P x ps → P' x ps) :
    Follows r e P' := by
  intro place a
  rcases h place a with ⟨x, after, a₁, ps, read, runs, holds⟩ | ⟨a₁, failed, runs⟩
  · exact .answers x after a₁ ps read runs (weaker x ps holds)
  · exact .fails a₁ failed runs

/-- An expression may be written in another way. -/
theorem Follows.rewrite (h : Follows r e P) (same : ∀ cs o, Runs e cs o → Runs e' cs o) :
    Follows r e' P := by
  intro place a
  rcases h place a with ⟨x, after, a₁, ps, read, runs, holds⟩ | ⟨a₁, failed, runs⟩
  · exact .answers x after a₁ ps read (same _ _ runs) holds
  · exact .fails a₁ failed (same _ _ runs)

/-- What follows is checked against the relation with the pieces so far in
front. -/
theorem Follows.bind (h : Follows r e P)
    (h' : ∀ x ps, P x ps → Follows (next x) e' fun y qs => Q y (ps ++ qs)) :
    Follows (r >>= next) (.seq e e') Q := by
  intro place a
  rcases h place a with ⟨x, mid, a₁, ps, read, runs, holds⟩ | ⟨a₁, failed, runs⟩
  · rcases h' x ps holds mid a₁ with ⟨y, after, a₂, qs, read', runs', holds'⟩ | ⟨a₂, failed', runs'⟩
    · exact .answers y after a₂ (ps ++ qs) ((bind_of_read read).trans read') (.seq runs runs')
        holds'
    · exact .fails a₂ ((bind_of_read read).trans failed') (.seq_fails_second runs runs')
  · exact .fails a₁ (bind_of_failed failed) (.seq_fails_first runs)

/-- The last part of a sequence, and what is made of it. -/
theorem Follows.map {f : β → γ} (h : Follows r e P) (holds : ∀ x ps, P x ps → Q (f x) ps) :
    Follows (r >>= fun x => pure (f x)) e Q := by
  intro place a
  rcases h place a with ⟨x, after, a₁, ps, read, runs, held⟩ | ⟨a₁, failed, runs⟩
  · exact .answers (f x) after a₁ ps (bind_of_read read) runs (holds x ps held)
  · exact .fails a₁ (bind_of_failed failed) runs

/-- A choice follows a choice, in the same order. -/
theorem Follows.either (h : Follows first e P) (h' : Follows second e' P) :
    Follows (Reader.either first second) (.either e e') P := by
  intro place a
  rcases h place a with ⟨x, after, a₁, ps, read, runs, holds⟩ | ⟨a₁, failed, runs⟩
  · refine .answers x after a₁ ps ?_ (.either_first runs) holds
    unfold Reader.either
    rw [read]
  · have same : Reader.either first second place a = second place a₁ := by
      unfold Reader.either
      rw [failed]
    rcases h' place a₁ with ⟨x, after, a₂, ps, read, runs', holds⟩ | ⟨a₂, failed', runs'⟩
    · exact .answers x after a₂ ps (same.trans read) (.either_second runs runs') holds
    · exact .fails a₂ (same.trans failed') (.either_second runs runs')

/-- What need not be there follows what need not be there. -/
theorem Follows.optional {P' : Option β → List Piece → Prop} (h : Follows r e P)
    (absent : P' none []) (present : ∀ x ps, P x ps → P' (some x) ps) :
    Follows (Reader.optional r) (opt e) P' := by
  intro place a
  rcases h place a with ⟨x, after, a₁, ps, read, runs, holds⟩ | ⟨a₁, failed, runs⟩
  · refine .answers (some x) after a₁ ps ?_ (.either_first runs) (present x ps holds)
    unfold Reader.optional
    rw [read]
  · refine .answers none place a₁ [] ?_ (.either_second runs .nothing) absent
    unfold Reader.optional
    rw [failed]

/-- Naming a part does not change what is followed. -/
theorem Follows.part (h : Follows r e P) (kind : Part) : Follows (Reader.part kind r) e P := by
  intro place a
  rcases h place a with ⟨x, after, a₁, ps, read, runs, holds⟩ | ⟨a₁, failed, runs⟩
  · exact .answers x after a₁ ps (part_eq_some.mpr read) runs holds
  · refine .fails (a₁.fail kind place.offset (a.countAt place.offset)) ?_ runs
    unfold Reader.part
    rw [failed]

/-- A part whose characters are kept. -/
theorem Follows.piece {Y : β → List Char → Prop} (h : Follows r e P)
    (text : Yields r fun x taken _ => Y x taken) (kind : Part) :
    Follows r (.piece kind e) fun x ps =>
      ∃ qs chars, P x qs ∧ Y x chars ∧ ps = qs ++ [⟨kind, chars⟩] := by
  intro place a
  rcases h place a with ⟨x, after, a₁, ps, read, runs, holds⟩ | ⟨a₁, failed, runs⟩
  · obtain ⟨taken, rest, spelled⟩ := text _ _ _ _ _ read
    refine .answers x after a₁ (ps ++ [⟨kind, taken⟩]) read ?_ ⟨ps, taken, holds, spelled, rfl⟩
    rw [rest] at runs ⊢
    exact .piece runs
  · exact .fails a₁ failed (.piece_fails runs)

section

variable {P' : List β → List Piece → Prop} (h : Follows r e P)
  (takes : Yields r fun _ taken _ => taken ≠ []) (nil : P' [] [])
  (cons : ∀ x xs ps qs, P x ps → P' xs qs → P' (x :: xs) (ps ++ qs))

include h takes nil cons

/-- Reading up to a limit that is never reached. -/
theorem Follows.upTo {limit : Nat} {place : Place} (enough : place.rest.length < limit)
    (a : Attempts) : FollowsAt (Reader.upTo r limit) (.many e) P' place a := by
  induction limit generalizing place a with
  | zero => omega
  | succ limit ih =>
      rcases h place a with ⟨x, mid, a₁, ps, read, runs, holds⟩ | ⟨a₁, failed, runs⟩
      · obtain ⟨taken, rest, some⟩ := takes _ _ _ _ _ read
        have shorter : mid.rest.length < limit := by
          have length := congrArg List.length rest
          have positive := List.length_pos_iff.mpr some
          rw [List.length_append] at length
          omega
        rcases ih shorter a₁ with ⟨xs, after, a₂, qs, read', runs', holds'⟩ | ⟨a₂, failed', runs'⟩
        · refine .answers (x :: xs) after a₂ (ps ++ qs) ?_ (.many_goes_on runs runs')
            (cons x xs ps qs holds holds')
          unfold Reader.upTo
          rw [read]
          dsimp only
          rw [read']
        · cases runs'
      · refine .answers [] place a₁ [] ?_ (.many_stops runs) nil
        unfold Reader.upTo
        rw [failed]

/-- A reader that takes something each time repeats as an expression does. -/
theorem Follows.repeated : Follows (Reader.repeated r) (.many e) P' := by
  intro place a
  rcases h.upTo takes nil cons (Nat.lt_succ_self place.rest.length) a with
    ⟨xs, after, a₁, ps, read, runs, holds⟩ | ⟨a₁, failed, runs⟩
  · exact .answers xs after a₁ ps read runs holds
  · exact .fails a₁ failed runs

end

-- ============================================================== tokens

/-- Following an expression that keeps no pieces. -/
def FollowsPlainly (r : Reader β) (e : Peg) : Prop := Follows r e fun _ ps => ps = []

/-- A reader of no pieces is followed by one that has them all. -/
theorem FollowsPlainly.bind (h : FollowsPlainly r e) (h' : ∀ x, Follows (next x) e' Q) :
    Follows (r >>= next) (.seq e e') Q := by
  refine Follows.bind h fun x ps hps => ?_
  subst hps
  exact h' x

theorem follows_mark (c : Char) : FollowsPlainly (mark c) (literal c) := by
  intro place a
  obtain ⟨offset, cs⟩ := place
  by_cases stops : Stops (· == c) cs
  · obtain ⟨a', failed⟩ := fails_mark stops offset a
    exact .fails a' failed (.one_fails stops)
  · cases cs with
    | nil => exact absurd stops_nil stops
    | cons d rest =>
        have same : (d == c) = true := by
          by_contra other
          exact stops (stops_cons (Bool.eq_false_iff.mpr other))
        obtain rfl := beq_iff_eq.mp same
        obtain ⟨offset', a', read⟩ := reads_mark d rest offset a
        exact .answers () ⟨offset', rest⟩ a' [] read (.one same) rfl

theorem follows_blanks : FollowsPlainly blanks Peg.blanks :=
  fun place a => .answers () _ a [] rfl (Peg.runs_blanks place.rest) rfl

theorem follows_atEnd : FollowsPlainly atEnd .atEnd := by
  rintro ⟨offset, cs⟩ a
  cases cs with
  | nil => exact .answers () _ a [] rfl .atEnd rfl
  | cons c cs => exact .fails a rfl .atEnd_fails

/-- A token follows an expression that takes what its scanner takes. -/
theorem follows_token {scan : List Char → Option (β × List Char)} (chars : β → List Char)
    (runs : ∀ cs, Runs e cs ((scan cs).map fun r => ([], r.2))) :
    FollowsPlainly (token scan chars) e := by
  intro place a
  have outcome := runs place.rest
  cases scanned : scan place.rest with
  | none =>
      rw [scanned] at outcome
      refine .fails a ?_ outcome
      unfold token
      rw [scanned]
  | some r =>
      rw [scanned] at outcome
      refine .answers r.1 ⟨place.offset + (chars r.1).length, r.2⟩ a [] ?_ outcome rfl
      unfold token
      rw [scanned]

end Reader

-- ============================================================ scanners

namespace Rules

variable {cs : List Char}

theorem fails_literal {c : Char} (other : ∀ rest, cs = c :: rest → False) :
    Runs (literal c) cs none := by
  refine .one_fails fun d first => ?_
  cases cs with
  | nil => cases first
  | cons d' rest =>
      cases first
      rw [beq_eq_false_iff_ne]
      rintro rfl
      exact other rest rfl

/-- Digits, as the scanner takes them. -/
theorem runs_digits (cs : List Char) :
    Runs (several digit) cs ((scanDigits cs).map fun r => ([], r.2)) := by
  cases cs with
  | nil => exact .seq_fails_first (.one_fails stops_nil)
  | cons c cs =>
      unfold scanDigits
      by_cases is : c.isDigit = true
      · rw [List.takeWhile_cons_of_pos is, List.dropWhile_cons_of_pos is,
          if_neg (List.cons_ne_nil _ _)]
        exact .seq (.one is) (Peg.runs_many_one Char.isDigit cs)
      · rw [List.takeWhile_cons_of_neg is, if_pos rfl]
        exact .seq_fails_first (.one_fails (stops_cons (Bool.eq_false_iff.mpr is)))

/-- A number, as the scanner takes it: the longest choice comes first. -/
theorem runs_number (cs : List Char) :
    Runs number cs ((Numeral.scan cs).map fun r => ([], r.2)) := by
  have digits := runs_digits cs
  have point : ∀ rest, Runs (literal '.') ('.' :: rest) (some ([], rest)) := fun _ => .one rfl
  unfold Numeral.scan
  split
  next whole rest scanned =>
    rw [scanned] at digits
    have fraction : Runs (opt (.seq (literal '.') (.many digit))) ('.' :: rest) _ :=
      .either_first (.seq (point rest) (Peg.runs_many_one Char.isDigit rest))
    exact .either_first (.seq digits fraction)
  next whole rest other scanned =>
    rw [scanned] at digits
    have none : Runs (opt (.seq (literal '.') (.many digit))) rest _ :=
      .either_second (.seq_fails_first (fails_literal other)) .nothing
    exact .either_first (.seq digits none)
  next rest scanned =>
    rw [scanned] at digits
    have fraction := (point rest).andThen (runs_digits rest)
    rw [Peg.behind_nil] at fraction
    rw [Option.map_map]
    exact .either_second (.seq_fails_first digits) fraction
  next other scanned =>
    rw [scanned] at digits
    exact .either_second (.seq_fails_first digits) (.seq_fails_first (fails_literal other))

/-- A name, as the scanner takes it. -/
theorem runs_name (cs : List Char) : Runs name cs ((scanName cs).map fun r => ([], r.2)) := by
  unfold scanName
  cases cs with
  | nil => exact .seq_fails_first (.one_fails stops_nil)
  | cons c cs =>
      dsimp only
      split
      next letter => exact .seq (.one letter) (Peg.runs_many_one isNameChar cs)
      next other => exact .seq_fails_first (.one_fails (stops_cons (Bool.eq_false_iff.mpr other)))

end Rules

-- ============================================================== pieces

/-- The pieces that a step is made of: the numbers in it, and at its end
itself if it sounds. -/
def Step.pieces : Step → List Piece
  | .rest weight => (weight.map fun n => ⟨.weight, n.chars⟩).toList
  | .hit h => [⟨.weight, h.weight.chars⟩, ⟨.hit, (Step.hit h).chars⟩]

/-- The pieces of a division, from left to right. -/
def Division.pieces : Division → List Piece
  | .count digits => [⟨.count, digits⟩]
  | .weights first others => (first :: others).flatMap Step.pieces

/-- The pieces of a group, those of its span last. -/
def Group.pieces (g : Group) : List Piece :=
  g.division.pieces ++ (g.span.map fun n => ⟨.span, n.chars⟩).toList

/-- The pieces of a pattern, from left to right. -/
def Pattern.pieces (p : Pattern) : List Piece := p.groups.flatMap Group.pieces

-- ============================================================= readers

namespace Grammar

open Reader

/-- A number follows its rule and is one piece. -/
theorem follows_numeral (kind : Part) :
    Follows (part kind (token Numeral.scan Numeral.chars)) (.piece kind Rules.number)
      fun n ps => ps = [⟨kind, n.chars⟩] := by
  have plain := (follows_token Numeral.chars Rules.runs_number).part kind
  have text : Yields (part kind (token Numeral.scan Numeral.chars)) fun n taken _ =>
      taken = n.chars := (lays_numeral kind).weaken fun _ _ _ laid => laid.2.1
  refine (plain.piece text kind).weaken ?_
  rintro n ps ⟨_, _, rfl, rfl, rfl⟩
  rfl

/-- A count follows its rule and is one piece. -/
theorem follows_count : Follows count Rules.count fun d ps => ps = d.pieces := by
  have digits : Yields (token scanDigits id) fun ds taken _ => taken = ds :=
    yields_token fun cs ds rest scanned => ⟨ds, (scanDigits_sound scanned).1, rfl⟩
  have text : Yields count fun d taken _ => d = .count taken := by
    refine (digits.bind fun ds taken mid hds => yields_pure fun rest _ => ?_).part .count
    rw [List.append_nil, hds]
  have plain : FollowsPlainly count (several Rules.digit) :=
    ((follows_token id Rules.runs_digits).map fun _ _ hps => hps).part .count
  refine (plain.piece text .count).weaken ?_
  rintro d ps ⟨_, _, rfl, rfl, rfl⟩
  rfl

/-- A rest follows its rule. -/
theorem follows_rest : Follows rest Rules.rest fun s ps => ps = s.pieces := by
  have weighed : Follows (optional weight) (opt Rules.weight) fun w ps =>
      ps = (w.map fun n => ⟨.weight, n.chars⟩).toList :=
    (follows_numeral .weight).optional rfl fun n ps hps => hps
  refine Follows.part ?_ .rest
  refine (follows_mark '~').bind fun _ => ?_
  exact weighed.map fun w ps hps => hps

theorem follows_sound : FollowsPlainly sound Rules.sound := by
  refine Follows.part ?_ .sound
  refine (follows_mark '@').bind fun _ => ?_
  exact (follows_token id Rules.runs_name).part .name

/-- A hit follows its rule, with the pieces of its parts in front of its own. -/
theorem follows_hit : Follows hit Rules.hit fun s ps => ps = s.pieces := by
  have accented : FollowsPlainly (optional accent) (opt (literal '!')) :=
    ((follows_mark '!').part .accent).optional rfl fun _ _ hps => hps
  have sounded : FollowsPlainly (optional sound) (opt Rules.sound) :=
    follows_sound.optional rfl fun _ _ hps => hps
  have inside : Follows hit (.seq (opt (literal '!')) (.seq Rules.weight (opt Rules.sound)))
      fun s ps => ∃ h : Hit, s = .hit h ∧ ps = [⟨.weight, h.weight.chars⟩] := by
    refine Follows.part ?_ .hit
    refine accented.bind fun mark => ?_
    refine (follows_numeral .weight).bind fun w ps hps => ?_
    subst hps
    refine sounded.map fun s ps hps => ?_
    subst hps
    exact ⟨_, rfl, rfl⟩
  -- nothing is skipped in a hit
  have text : Yields hit fun s taken _ => taken = s.chars :=
    lays_hit.weaken fun _ _ _ laid => laid.2.1
  refine (inside.piece text .hit).weaken ?_
  rintro s ps ⟨_, _, ⟨h, rfl, rfl⟩, rfl, rfl⟩
  rfl

/-- A step follows its rule, rests first. -/
theorem follows_step : Follows step Rules.step fun s ps => ps = s.pieces :=
  (follows_rest.either follows_hit).part .step

-- =============================================================== lists

/-- A step has a character of its own. -/
theorem takes_nextStep : Yields nextStep fun _ taken _ => taken ≠ [] := by
  refine lays_nextStep.weaken ?_
  rintro s taken rest ⟨wf, ⟨gap, -, rfl⟩, -⟩
  exact List.append_ne_nil_of_right_ne_nil gap wf.chars_ne_nil

/-- A group has a bar in front of it. -/
theorem takes_nextGroup : Yields nextGroup fun _ taken _ => taken ≠ [] := by
  refine lays_nextGroup.weaken ?_
  rintro g taken rest ⟨-, a, b, cs, c, -, -, -, -, rfl⟩
  exact List.append_ne_nil_of_right_ne_nil a (List.cons_ne_nil '|' _)

/-- A further step follows what is repeated in a list. -/
theorem follows_nextStep :
    Follows nextStep (.seq Peg.blanks (spaced (opt (literal ',')) Rules.step))
      fun s ps => ps = s.pieces := by
  have comma : FollowsPlainly (optional (mark ',')) (opt (literal ',')) :=
    (follows_mark ',').optional rfl fun _ _ hps => hps
  refine follows_blanks.bind fun _ => ?_
  refine comma.bind fun _ => ?_
  refine follows_blanks.bind fun _ => ?_
  exact follows_step

/-- A list of weights follows its rule. -/
theorem follows_weights : Follows weights Rules.weights fun d ps => ps = d.pieces := by
  have others : Follows (repeated nextStep)
      (.many (.seq Peg.blanks (spaced (opt (literal ',')) Rules.step)))
      fun steps ps => ps = steps.flatMap Step.pieces := by
    refine follows_nextStep.repeated takes_nextStep rfl fun s steps ps qs hps hqs => ?_
    rw [hps, hqs, List.flatMap_cons]
  refine Follows.part ?_ .weights
  refine (follows_mark '[').bind fun _ => ?_
  refine follows_blanks.bind fun _ => ?_
  refine follows_step.bind fun first ps hps => ?_
  subst hps
  refine Follows.rewrite ?_ fun cs o => Peg.runs_spacedMany
  refine others.bind fun steps ps hps => ?_
  subst hps
  refine follows_blanks.bind fun _ => ?_
  refine (follows_mark ']').map fun _ ps hps => ?_
  subst hps
  simp [Division.pieces]

theorem follows_spanMark :
    Follows spanMark (spaced (literal ':') Rules.span) fun n ps => ps = [⟨.span, n.chars⟩] := by
  refine (follows_mark ':').bind fun _ => ?_
  refine follows_blanks.bind fun _ => ?_
  exact follows_numeral .span

/-- A group follows its rule. -/
theorem follows_group : Follows group Rules.group fun g ps => ps = g.pieces := by
  have spanned : Follows (optional spanMark) (opt (spaced (literal ':') Rules.span)) fun s ps =>
      ps = (s.map fun n => ⟨.span, n.chars⟩).toList :=
    follows_spanMark.optional rfl fun n ps hps => hps
  refine Follows.part ?_ .group
  refine (follows_weights.either follows_count).bind fun d ps hps => ?_
  subst hps
  refine follows_blanks.bind fun _ => ?_
  refine spanned.map fun s ps hps => ?_
  rw [hps]
  rfl

/-- A further group follows what is repeated in a pattern. -/
theorem follows_nextGroup :
    Follows nextGroup (.seq Peg.blanks (spaced (literal '|') Rules.group))
      fun g ps => ps = g.pieces := by
  refine follows_blanks.bind fun _ => ?_
  refine (follows_mark '|').bind fun _ => ?_
  refine follows_blanks.bind fun _ => ?_
  exact follows_group

/-- The reader of patterns follows the grammar. -/
theorem follows_pattern : Follows pattern Rules.pattern fun p ps => ps = p.pieces := by
  have others : Follows (repeated nextGroup)
      (.many (.seq Peg.blanks (spaced (literal '|') Rules.group)))
      fun groups ps => ps = groups.flatMap Group.pieces := by
    refine follows_nextGroup.repeated takes_nextGroup rfl fun g groups ps qs hps hqs => ?_
    rw [hps, hqs, List.flatMap_cons]
  have ended : FollowsPlainly endOfText .atEnd := follows_atEnd.part .endOfText
  refine Follows.part ?_ .pattern
  refine Follows.rewrite ?_ fun cs o => Peg.runs_nothing_seq
  refine follows_blanks.bind fun _ => ?_
  refine follows_group.bind fun first ps hps => ?_
  subst hps
  refine Follows.rewrite ?_ fun cs o => Peg.runs_spacedMany
  refine others.bind fun groups ps hps => ?_
  subst hps
  refine follows_blanks.bind fun _ => ?_
  refine ended.map fun _ ps hps => ?_
  subst hps
  simp [Pattern.pieces, Pattern.groups]

end Grammar

-- ========================================================== acceptance

/-- A text is read as a pattern whose pieces the grammar finds in it, or it is
not read and the grammar does not accept it. -/
theorem parse_cases (text : String) :
    (∃ p, parse text = .ok p ∧ p.WellFormed ∧ Accepts text p.pieces)
      ∨ ∃ m, parse text = .error (.unreadable m) ∧ ∀ pieces, ¬ Accepts text pieces := by
  unfold parse read Accepts
  rcases Grammar.follows_pattern ⟨0, text.toList⟩ Attempts.none with
    ⟨p, after, a, pieces, read, runs, rfl⟩ | ⟨a, failed, runs⟩
  · obtain ⟨taken, rest, wf, -⟩ := Grammar.spells_pattern _ _ _ _ _ read
    rw [Grammar.ends_pattern _ _ _ _ _ read] at runs
    rw [read]
    exact Or.inl ⟨p, rfl, wf, runs⟩
  · rw [failed]
    refine Or.inr ⟨_, rfl, fun pieces accepts => ?_⟩
    cases runs.functional accepts

/-- The grammar accepts a text with the pieces of the pattern that is read, and
with no others. -/
theorem pattern_of_accepts {text : String} {pieces : List Piece} (h : Accepts text pieces) :
    ∃ p, parse text = .ok p ∧ p.WellFormed ∧ pieces = p.pieces := by
  rcases parse_cases text with ⟨p, parsed, wf, accepts⟩ | ⟨m, -, refuses⟩
  · cases h.functional accepts
    exact ⟨p, parsed, wf, rfl⟩
  · exact absurd h (refuses pieces)

end Metrograph.Rhythm
