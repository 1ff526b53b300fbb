/-
Every text in which a pattern can stand is read as the pattern.

The proof follows the grammar from the tokens up. Each part has one lemma:
on its text and whatever may come after it, its reader answers the part
and leaves what comes after. What may come after is all that the lemmas
assume of the rest of the text: a token ends there (`Numeral.Ends`,
`Step.Ends`), and a list is closed.

A group is the exception that its text may be left with blanks after it.
Where a span could still follow, the reader skips them in search of the
colon; after a span it leaves them to the next part. `reads_group` allows
for both, and every part that comes after a group skips blanks first.
-/
import Mathlib.Data.List.TakeWhile
import Metrograph.Proofs.Rhythm.Reader
import Metrograph.Proofs.Rhythm.Scanner

namespace Metrograph.Rhythm.Grammar

open Reader
open Text (Digits Followed Stops followed_cons followed_nil isDigit_beq stops_cons stops_nil)

variable {cs after : List Char}

-- ============================================================== tokens

/-- A weight is read where its number ends. -/
theorem reads_weight {n : Numeral} (h : n.WellFormed) (ends : n.Ends after) :
    Reads weight (n.chars ++ after) n after :=
  (reads_token (Numeral.scan_append h ends)).part .weight

/-- No weight is read where no number begins. -/
theorem fails_weight (digit : Stops Char.isDigit cs) (point : StopsBehind '.' Char.isDigit cs) :
    Fails weight cs :=
  (fails_token (Numeral.scan_none digit point)).part .weight

-- =============================================================== steps

/-- A rest is read with or without its weight. -/
theorem reads_rest {w : Option Numeral} (h : (Step.rest w).WellFormed)
    (ends : (Step.rest w).Ends after) :
    Reads rest ((Step.rest w).chars ++ after) (.rest w) after := by
  have weighed : Reads (optional weight) ((w.map Numeral.chars).getD [] ++ after) w after := by
    cases w with
    | none => exact (fails_weight ends.1 ends.2).optional
    | some n => exact (reads_weight (h n rfl) ends).optional
  refine Reads.part ?_ .rest
  refine (reads_mark '~' _).bind ?_
  exact weighed.bind (reads_pure _ _)

/-- Without a name behind it a sound mark is left where it is. -/
theorem fails_sound (ends : StopsBehind '@' Char.isAlpha cs) : Fails sound cs := by
  refine Fails.part ?_ .sound
  by_cases unmarked : Stops (· == '@') cs
  · exact (fails_mark unmarked).bind
  · cases cs with
    | nil => exact absurd stops_nil unmarked
    | cons c cs =>
        have same : (c == '@') = true := by
          by_contra other
          exact unmarked (stops_cons (Bool.eq_false_iff.mpr other))
        obtain rfl := beq_iff_eq.mp same
        exact (reads_mark '@' cs).bind_fails
          ((fails_token (scanName_none (ends cs rfl))).part .name)

/-- A sound is read if there is one, and nothing if there is none. -/
theorem reads_sound {s : Option (List Char)} (h : ∀ name ∈ s, SoundName name)
    (ends : SoundEnds s after) : Reads (optional sound) (soundChars s ++ after) s after := by
  cases s with
  | none => exact (fails_sound ends).optional
  | some name =>
      have scanned := scanName_append (h name rfl) ends
      have named : Reads Grammar.name (name ++ after) name after := (reads_token scanned).part .name
      exact (((reads_mark '@' _).bind named).part .sound).optional

/-- A hit is read with its accent and its sound, whichever of them it has. -/
theorem reads_hit {h : Hit} (wf : (Step.hit h).WellFormed) (ends : (Step.hit h).Ends after) :
    Reads hit ((Step.hit h).chars ++ after) (.hit h) after := by
  obtain ⟨accented, w, s⟩ := h
  obtain ⟨hweight, hsound⟩ := wf
  -- a weight ends at the sound mark, or where the step ends
  have weightEnds : w.Ends (soundChars s ++ after) := by
    cases s with
    | none => exact ends.1 rfl
    | some name =>
        have marked : Followed ['@'] ('@' :: (name ++ after)) := followed_cons List.mem_cons_self
        exact w.ends_of_followed marked (by decide) (by decide)
  have weighed := reads_weight hweight weightEnds
  have sounds := reads_sound hsound ends.2
  rw [hit_chars, List.append_assoc, List.append_assoc]
  refine Reads.part ?_ .hit
  cases accented with
  | true =>
      refine ((reads_mark '!' _).part .accent).optional.bind ?_
      refine weighed.bind ?_
      exact sounds.bind (reads_pure _ _)
  | false =>
      have plain : Fails accent (w.chars ++ (soundChars s ++ after)) :=
        (fails_mark (hweight.stops (fun _ => isDigit_beq rfl) rfl _)).part .accent
      refine plain.optional.bind ?_
      refine weighed.bind ?_
      exact sounds.bind (reads_pure _ _)

/-- A step is read where it ends. -/
theorem reads_step {s : Step} (wf : s.WellFormed) (ends : s.Ends after) :
    Reads step (s.chars ++ after) s after := by
  cases s with
  | rest w => exact (reads_rest wf ends).either.part .step
  | hit h =>
      have sounds : Fails rest ((Step.hit h).chars ++ after) :=
        (fails_mark (wf.stops_hit (fun _ => isDigit_beq rfl) (by decide) _)).bind.part .rest
      exact (Reads.orElse sounds (reads_hit wf ends)).part .step

/-- No step begins with a closing bracket. -/
theorem fails_step (cs : List Char) : Fails step (']' :: cs) := by
  have quiet : Fails rest (']' :: cs) := (fails_mark (stops_cons rfl)).bind.part .rest
  have plain : Fails accent (']' :: cs) := (fails_mark (stops_cons rfl)).part .accent
  have unweighed : Fails weight (']' :: cs) :=
    fails_weight (stops_cons rfl) (stopsBehind_of_stops (stops_cons rfl))
  exact (quiet.either ((plain.optional.bind_fails unweighed.bind).part .hit)).part .step

-- =============================================================== lists

/-- A further step is read behind a gap. -/
theorem reads_nextStep {gap : List Char} (apart : Gap gap) {s : Step} (wf : s.WellFormed)
    (ends : s.Ends after) : Reads nextStep (gap ++ (s.chars ++ after)) s after := by
  have read := reads_step wf ends
  have solid : Stops isBlank (s.chars ++ after) :=
    wf.stops (fun _ => isDigit_isBlank) (by decide) _
  cases apart with
  | @comma a b before behind =>
      rw [List.append_assoc, List.cons_append]
      exact (reads_blanks before (stops_cons rfl)).bind
        ((reads_mark ',' _).optional.bind ((reads_blanks behind solid).bind read))
  | blanks blanks =>
      have unmarked : Fails (mark ',') (s.chars ++ after) :=
        fails_mark (wf.stops (fun _ => isDigit_beq rfl) (by decide) _)
      exact (reads_blanks blanks solid).bind
        (unmarked.optional.bind ((reads_no_blanks solid).bind read))

/-- At the end of a list there is no further step. -/
theorem fails_nextStep {b : List Char} (closed : Blanks b) (cs : List Char) :
    Fails nextStep (b ++ ']' :: cs) := by
  have unmarked : Fails (mark ',') (']' :: cs) := fails_mark (stops_cons rfl)
  exact (reads_blanks closed (stops_cons rfl)).bind_fails
    (unmarked.optional.bind_fails
      ((reads_no_blanks (stops_cons rfl)).bind_fails (fails_step cs)))

/-- All further steps are read, one after another. -/
theorem repeats_nextStep {others : List Step} (lined : Lined after others cs)
    (wf : ∀ s ∈ others, s.WellFormed) (ended : Fails nextStep after) :
    Repeats nextStep (cs ++ after) others after := by
  induction lined with
  | nil => exact .nil ended
  | @cons s rest gap cs apart ends lined ih =>
      have wfStep : s.WellFormed := wf s List.mem_cons_self
      have read := reads_nextStep apart wfStep ends
      rw [List.append_assoc, List.append_assoc]
      refine .cons read ?_ (ih fun t ht => wf t (List.mem_cons_of_mem _ ht))
      -- a step is never empty, so a list has no more steps than characters
      have positive := List.length_pos_iff.mpr wfStep.chars_ne_nil
      simp only [List.length_append]
      omega

/-- Weights are read from one bracket to the other. -/
theorem reads_weights {first : Step} {others : List Step} {a b : List Char} (opened : Blanks a)
    (ends : first.Ends (cs ++ (b ++ ']' :: after))) (lined : Lined (b ++ ']' :: after) others cs)
    (closed : Blanks b) (wf : (Division.weights first others).WellFormed) :
    Reads weights ('[' :: (a ++ (first.chars ++ (cs ++ (b ++ ']' :: after)))))
      (.weights first others) after := by
  have wfFirst : first.WellFormed := wf first List.mem_cons_self
  have wfOthers : ∀ s ∈ others, s.WellFormed := fun s hs => wf s (List.mem_cons_of_mem _ hs)
  have solid := wfFirst.stops (fun _ => isDigit_isBlank) (by decide)
    (cs ++ (b ++ ']' :: after))
  have more := (repeats_nextStep lined wfOthers (fails_nextStep closed after)).reads
  refine Reads.part ?_ .weights
  refine (reads_mark '[' _).bind ?_
  refine (reads_blanks opened solid).bind ?_
  refine (reads_step wfFirst ends).bind ?_
  refine more.bind ?_
  refine (reads_blanks closed (stops_cons rfl)).bind ?_
  exact (reads_mark ']' after).bind (reads_pure _ _)

-- ============================================================== groups

/-- A division is read whichever of the two it is: no count begins with a bracket. -/
theorem reads_division {d : Division} (laid : d.Laid cs) (wf : d.WellFormed)
    (digit : Stops Char.isDigit after) : Reads (either weights count) (cs ++ after) d after := by
  cases laid with
  | count =>
      have bare : Fails weights (cs ++ after) :=
        (fails_mark (Digits.stops wf.2 wf.1 (fun _ => isDigit_beq rfl) after)).bind.part .weights
      refine Reads.orElse bare (Reads.part ?_ .count)
      exact (reads_token (scanDigits_append wf.1 wf.2 digit)).bind (reads_pure _ _)
  | @weights first others a cs b opened ends lined closed =>
      have wfOthers : ∀ s ∈ others, s.WellFormed := fun s hs => wf s (List.mem_cons_of_mem _ hs)
      obtain ⟨lined', same⟩ := lined.alike wfOthers (alike_closed closed [] after)
      have read : Reads (either weights count) _ (.weights first others) after :=
        (reads_weights opened (ends.alike same) lined' closed wf).either
      simpa using read

/-- After a group come blanks, and then a bar or nothing. -/
def GroupEnds (cs : List Char) : Prop := Followed ['|'] (cs.dropWhile isBlank)

theorem GroupEnds.stops {p : Char → Bool} (h : GroupEnds cs)
    (others : [' ', '\t', '|'].any p = false) : Stops p cs := by
  have all : Followed [' ', '\t', '|'] (cs.takeWhile isBlank ++ cs.dropWhile isBlank) :=
    Blanks.followed (List.all_eq_true.mp List.all_takeWhile) (by decide) (by decide)
      fun c hc => List.mem_cons_of_mem _ (List.mem_cons_of_mem _ (h c hc))
  rw [List.takeWhile_append_dropWhile] at all
  exact all.stops others

/-- The blanks after a group are left, or they are skipped. -/
theorem reads_group {g : Group} (laid : g.Laid cs) (wf : g.WellFormed)
    (ends : GroupEnds after) :
    ∃ bs, Blanks bs ∧ bs.length ≤ (after.takeWhile isBlank).length
      ∧ Reads group (cs ++ after) g (bs ++ after.dropWhile isBlank) := by
  have blank : Blanks (after.takeWhile isBlank) := List.all_eq_true.mp List.all_takeWhile
  have solid : Stops isBlank (after.dropWhile isBlank) := Followed.stops ends (by decide)
  cases laid with
  | @plain division cs laid =>
      -- looking for a colon, the reader skips the blanks and finds none
      have divided := reads_division laid wf.1 (ends.stops (by decide))
      have skipped := reads_blanks blank solid
      rw [List.takeWhile_append_dropWhile] at skipped
      have unspanned : Fails spanMark (after.dropWhile isBlank) :=
        (fails_mark (Followed.stops ends (by decide))).bind
      refine ⟨[], nofun, Nat.zero_le _, ?_⟩
      refine Reads.part ?_ .group
      refine divided.bind ?_
      refine skipped.bind ?_
      exact unspanned.optional.bind (reads_pure _ _)
  | @spanned division cs a b laid before behind n =>
      have number : n.WellFormed := wf.2 n rfl
      have colon : Followed [' ', '\t', ':'] (a ++ ':' :: (b ++ (n.chars ++ after))) :=
        before.followed (by decide) (by decide) (followed_cons (by decide))
      have divided := reads_division laid wf.1 (colon.stops (by decide))
      have numberEnds : n.Ends after := ⟨ends.stops (by decide), fun _ => ends.stops (by decide)⟩
      have spanned : Reads span (n.chars ++ after) n after :=
        (reads_token (Numeral.scan_append number numberEnds)).part .span
      have marked : Reads spanMark (':' :: (b ++ (n.chars ++ after))) n after :=
        (reads_mark ':' _).bind ((reads_blanks behind
          (number.stops (fun _ => isDigit_isBlank) rfl _)).bind spanned)
      refine ⟨after.takeWhile isBlank, blank, Nat.le_refl _, ?_⟩
      rw [List.takeWhile_append_dropWhile]
      have text : cs ++ (a ++ ':' :: (b ++ n.chars)) ++ after
          = cs ++ (a ++ ':' :: (b ++ (n.chars ++ after))) := by simp
      rw [text]
      refine Reads.part ?_ .group
      refine divided.bind ?_
      refine (reads_blanks before (stops_cons rfl)).bind ?_
      exact marked.optional.bind (reads_pure _ _)

-- ============================================================ patterns

/-- In front of a bar a group may end. -/
theorem Barred.ends {others : List Group} (barred : Barred others cs) : GroupEnds cs := by
  unfold GroupEnds
  cases barred with
  | nil closed =>
      rw [List.dropWhile_eq_nil_iff.mpr closed]
      exact followed_nil
  | cons before =>
      rw [Stops.dropWhile (stops_cons rfl) before]
      exact followed_cons List.mem_cons_self

/-- Whatever blanks are left in front of them, groups behind bars are read up
to the blanks at the end. -/
theorem repeats_nextGroup {others : List Group} (barred : Barred others cs)
    (wf : ∀ g ∈ others, g.WellFormed) {bs : List Char} (left : Blanks bs) :
    ∃ last, Blanks last ∧ Repeats nextGroup (bs ++ cs.dropWhile isBlank) others last := by
  induction barred generalizing bs with
  | nil closed =>
      rw [List.dropWhile_eq_nil_iff.mpr closed]
      have unmarked : Fails (mark '|') [] := fails_mark stops_nil
      have failed : Fails nextGroup (bs ++ []) :=
        (reads_blanks left stops_nil).bind_fails unmarked.bind
      refine ⟨bs ++ [], ?_, .nil failed⟩
      rw [List.append_nil]
      exact left
  | @cons g rest a b cs more before behind laid barred ih =>
      have wfGroup : g.WellFormed := wf g List.mem_cons_self
      -- the group leaves some of the blanks before the next bar, or none
      obtain ⟨bs', left', fewer, read⟩ := reads_group laid wfGroup (Barred.ends barred)
      obtain ⟨last, blank, repeats⟩ := ih (fun t ht => wf t (List.mem_cons_of_mem _ ht)) left'
      have solid : Stops isBlank (cs ++ more) :=
        laid.stops wfGroup (fun _ => isDigit_isBlank) rfl _
      have next : Reads nextGroup (bs ++ '|' :: (b ++ (cs ++ more))) g _ :=
        (reads_blanks left (stops_cons rfl)).bind
          ((reads_mark '|' _).bind ((reads_blanks behind solid).bind read))
      rw [Stops.dropWhile (stops_cons rfl) before]
      refine ⟨last, blank, .cons next ?_ repeats⟩
      have whole := congrArg List.length
        (List.takeWhile_append_dropWhile (p := isBlank) (l := more))
      simp only [List.length_append, List.length_cons] at fewer whole ⊢
      omega

/-- A pattern is read back from every text that it is laid out in. -/
theorem reads_laid {p : Pattern} (laid : p.Laid cs) (wf : p.WellFormed) :
    ∃ last, Reads pattern cs p last := by
  cases laid with
  | @groups first others a cs more opened laid barred =>
      have wfFirst : first.WellFormed := wf first List.mem_cons_self
      have wfOthers : ∀ g ∈ others, g.WellFormed := fun g hg => wf g (List.mem_cons_of_mem _ hg)
      obtain ⟨bs, left, -, read⟩ := reads_group laid wfFirst (Barred.ends barred)
      obtain ⟨last, blank, repeats⟩ := repeats_nextGroup barred wfOthers left
      have solid : Stops isBlank (cs ++ more) :=
        laid.stops wfFirst (fun _ => isDigit_isBlank) rfl _
      have skipped := reads_blanks blank stops_nil
      rw [List.append_nil] at skipped
      have ended : Reads endOfText [] () [] := reads_atEnd.part .endOfText
      refine ⟨[], Reads.part ?_ .pattern⟩
      refine (reads_blanks opened solid).bind ?_
      refine read.bind ?_
      refine repeats.reads.bind ?_
      refine skipped.bind ?_
      exact ended.bind (reads_pure _ _)

/-- A text that writes a pattern is read as that pattern. -/
theorem reads_pattern {p : Pattern} (written : p.Written cs) (wf : p.WellFormed) :
    ∃ last, Reads pattern cs p last := reads_laid written.laid wf

end Metrograph.Rhythm.Grammar
