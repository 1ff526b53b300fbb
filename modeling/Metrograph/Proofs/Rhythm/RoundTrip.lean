/-
The notation and its trees: what is written is read, and what is read was
written.

One half is `reads_pattern`. For the other, every reader of the grammar is
checked to answer with a tree that is laid out in what it took off the
text (`lays_step`, `lays_group` and the lemmas between them). The last
part of a pattern is the end of the text, so a text is read as a pattern
exactly if the pattern stands in it (`parse_eq_ok_iff`).

`tokens` strips a text of the blanks and the commas. What is left of a
text in which a tree is laid out are the characters of the tree.
-/
import Metrograph.Proofs.Rhythm.Completeness
import Metrograph.Rhythm.Compile

namespace Metrograph.Rhythm

open Reader
open Text (Digits Stops eq_false_of_any)

-- ============================================================== tokens

/-- A text without its blanks and commas. -/
def tokens (cs : List Char) : List Char := cs.filter fun c => !(isBlank c || c == ',')

variable {cs taken : List Char}

/-- Characters are kept or dropped one by one. -/
theorem tokens_append (cs ds : List Char) : tokens (cs ++ ds) = tokens cs ++ tokens ds :=
  List.filter_append cs ds

/-- Nothing is left of blanks. -/
theorem tokens_blanks (h : Blanks cs) : tokens cs = [] := by
  refine List.filter_eq_nil_iff.mpr fun c hc => ?_
  rw [h c hc]
  exact Bool.false_ne_true

/-- Characters of a kind that has no blanks and no comma in it are tokens. -/
theorem tokens_eq_self {p : Char → Bool} (all : ∀ c ∈ cs, p c = true)
    (others : [' ', '\t', ','].any p = false) : tokens cs = cs := by
  refine List.filter_eq_self.mpr fun c hc => ?_
  have other : ∀ d ∈ [' ', '\t', ','], (c == d) = false := by
    intro d hd
    rw [beq_eq_false_iff_ne]
    rintro rfl
    have kind := eq_false_of_any others hd
    rw [all c hc] at kind
    cases kind
  unfold isBlank
  rw [other ' ' (by decide), other '\t' (by decide), other ',' (by decide)]
  rfl

/-- Digits are all left. -/
theorem tokens_digits (h : Digits cs) : Rhythm.tokens cs = cs := tokens_eq_self h (by decide)

/-- A number is left as it is. -/
theorem Numeral.WellFormed.tokens {n : Numeral} (h : n.WellFormed) :
    Rhythm.tokens n.chars = n.chars := by
  obtain ⟨whole, fraction⟩ := n
  cases fraction with
  | none => exact tokens_digits h.2
  | some digits =>
      show Rhythm.tokens (whole ++ '.' :: digits) = whole ++ '.' :: digits
      rw [tokens_append, tokens_digits h.1]
      show whole ++ '.' :: Rhythm.tokens digits = _
      rw [tokens_digits h.2.1]

/-- A name is left as it is. -/
theorem SoundName.tokens (h : SoundName cs) : Rhythm.tokens cs = cs := by
  cases cs with
  | nil => rfl
  | cons c cs =>
      obtain ⟨letter, others⟩ := h
      refine tokens_eq_self (p := isNameChar) (fun d hd => ?_) (by decide)
      rcases List.mem_cons.mp hd with rfl | hd
      · unfold isNameChar Char.isAlphanum
        rw [letter]
        rfl
      · exact others d hd

/-- The characters of a step are all tokens. -/
theorem Step.WellFormed.tokens {s : Step} (wf : s.WellFormed) :
    Rhythm.tokens s.chars = s.chars := by
  cases s with
  | rest weight =>
      cases weight with
      | none => rfl
      | some n => exact congrArg ('~' :: ·) (Numeral.WellFormed.tokens (wf n rfl))
  | hit h =>
      obtain ⟨accent, weight, sound⟩ := h
      have sounded : Rhythm.tokens (soundChars sound) = soundChars sound := by
        cases sound with
        | none => rfl
        | some name => exact congrArg ('@' :: ·) (SoundName.tokens (wf.2 name rfl))
      rw [hit_chars, tokens_append, tokens_append, Numeral.WellFormed.tokens wf.1, sounded]
      cases accent <;> rfl

/-- Nothing is left of what may stand between steps. -/
theorem Gap.tokens (h : Gap cs) : Rhythm.tokens cs = [] := by
  cases h with
  | @comma a b before behind =>
      rw [tokens_append, tokens_blanks before]
      show Rhythm.tokens b = []
      exact tokens_blanks behind
  | blanks blanks => exact tokens_blanks blanks

/-- What is left of further steps are the characters of each. -/
theorem Lined.tokens {after : List Char} {steps : List Step} (h : Lined after steps cs)
    (wf : ∀ s ∈ steps, s.WellFormed) : Rhythm.tokens cs = steps.flatMap Step.chars := by
  induction h with
  | nil => rfl
  | @cons s rest gap cs apart ends lined ih =>
      rw [tokens_append, tokens_append, apart.tokens, (wf s List.mem_cons_self).tokens,
        ih fun t ht => wf t (List.mem_cons_of_mem _ ht)]
      rfl

/-- What is left of a division are its characters, brackets included. -/
theorem Division.Laid.tokens {d : Division} (laid : d.Laid cs) (wf : d.WellFormed) :
    Rhythm.tokens cs = d.chars := by
  cases laid with
  | count => exact tokens_digits wf.2
  | @weights first others a cs b opened ends lined closed =>
      have bracket : Rhythm.tokens ('[' :: (a ++ (first.chars ++ (cs ++ (b ++ [']'])))))
          = '[' :: Rhythm.tokens (a ++ (first.chars ++ (cs ++ (b ++ [']'])))) := rfl
      rw [bracket, tokens_append, tokens_append, tokens_append, tokens_append,
        tokens_blanks opened, (wf first List.mem_cons_self).tokens,
        lined.tokens fun s hs => wf s (List.mem_cons_of_mem _ hs), tokens_blanks closed,
        Division.chars, List.flatMap_cons, List.append_assoc]
      rfl

/-- What is left of a group are its characters and the colon. -/
theorem Group.Laid.tokens {g : Group} (laid : g.Laid cs) (wf : g.WellFormed) :
    Rhythm.tokens cs = g.chars := by
  cases laid with
  | plain laid =>
      rw [laid.tokens wf.1]
      exact (List.append_nil _).symm
  | @spanned division cs a b laid before behind n =>
      have colon : Rhythm.tokens (':' :: (b ++ n.chars)) = ':' :: n.chars := by
        show ':' :: Rhythm.tokens (b ++ n.chars) = _
        rw [tokens_append, tokens_blanks behind, (wf.2 n rfl).tokens]
        rfl
      rw [tokens_append, tokens_append, laid.tokens wf.1, tokens_blanks before, colon]
      rfl

/-- What is left of further groups are their characters, each behind its bar. -/
theorem Barred.tokens {groups : List Group} (barred : Barred groups cs)
    (wf : ∀ g ∈ groups, g.WellFormed) :
    Rhythm.tokens cs = groups.flatMap fun g => '|' :: g.chars := by
  induction barred with
  | nil closed => exact tokens_blanks closed
  | @cons g rest a b cs more before behind laid barred ih =>
      have bar : Rhythm.tokens ('|' :: (b ++ (cs ++ more)))
          = '|' :: Rhythm.tokens (b ++ (cs ++ more)) := rfl
      rw [tokens_append, bar, tokens_append, tokens_append, tokens_blanks before,
        tokens_blanks behind, laid.tokens (wf g List.mem_cons_self),
        ih fun t ht => wf t (List.mem_cons_of_mem _ ht), List.flatMap_cons]
      rfl

/-- What is left of a pattern are its characters. -/
theorem Pattern.Laid.tokens {p : Pattern} (laid : p.Laid cs) (wf : p.WellFormed) :
    Rhythm.tokens cs = p.chars := by
  cases laid with
  | @groups first others a cs more opened laid barred =>
      rw [tokens_append, tokens_append, tokens_blanks opened,
        laid.tokens (wf first List.mem_cons_self),
        Barred.tokens barred fun g hg => wf g (List.mem_cons_of_mem _ hg)]
      rfl

-- ============================================================= readers

namespace Grammar

/-- A number that was read stands in the text and ends there. -/
theorem lays_numeral (kind : Part) :
    Yields (part kind (token Numeral.scan Numeral.chars)) fun n taken rest =>
      n.WellFormed ∧ taken = n.chars ∧ n.Ends rest := by
  refine (yields_token fun cs n rest scanned => ?_).part kind
  obtain ⟨text, wf⟩ := Numeral.scan_sound scanned
  exact ⟨n.chars, text, wf, rfl, Numeral.scan_ends scanned⟩

/-- A name that was read stands in the text and ends there. -/
theorem lays_name : Yields name fun n taken rest =>
    SoundName n ∧ taken = n ∧ Stops isNameChar rest := by
  refine (yields_token fun cs n rest scanned => ?_).part .name
  obtain ⟨text, wf⟩ := scanName_sound scanned
  exact ⟨n, text, wf, rfl, scanName_ends scanned⟩

/-- Without a weight a rest ends where no weight could be read. -/
theorem ends_of_refuses_weight (refused : Refuses weight cs) : (Step.rest none).Ends cs := by
  cases scanned : Numeral.scan cs with
  | none => exact Numeral.stops_of_scan scanned
  | some answer =>
      have read : Reads weight cs answer.1 answer.2 := (reads_token scanned).part .weight
      exact absurd refused read.not_refuses

/-- Where no sound could be read none stands, so a hit without a sound ends there. -/
theorem ends_of_refuses_sound (refused : Refuses sound cs) : SoundEnds none cs := by
  rintro rest rfl
  cases scanned : scanName rest with
  | none => exact stops_of_scanName scanned
  | some answer =>
      have named : Reads name rest answer.1 answer.2 := (reads_token scanned).part .name
      have read : Reads sound ('@' :: rest) answer.1 answer.2 :=
        ((reads_mark '@' rest).bind named).part .sound
      exact absurd refused read.not_refuses

/-- A rest that was read stands in the text and ends there. -/
theorem lays_rest : Yields rest fun s taken rest =>
    s.WellFormed ∧ taken = s.chars ∧ s.Ends rest := by
  have weighed : Yields (optional weight) fun w taken rest =>
      (Step.rest w).WellFormed ∧ '~' :: taken = (Step.rest w).chars ∧ (Step.rest w).Ends rest := by
    refine (lays_numeral .weight).optional ?_ ?_
    · exact fun rest refused => ⟨nofun, rfl, ends_of_refuses_weight refused⟩
    · rintro n taken rest ⟨wf, rfl, ends⟩
      refine ⟨?_, rfl, ends⟩
      rintro m ⟨⟩
      exact wf
  refine Yields.part ?_ .rest
  refine (yields_mark '~').bind fun _ tilde mid htilde => ?_
  refine weighed.bind fun w weight mid' hw => ?_
  refine yields_pure fun rest hmid' _ => ?_
  rw [htilde, List.append_nil, ← List.nil_append rest, ← hmid']
  exact hw

theorem lays_sound : Yields sound fun n taken rest =>
    SoundName n ∧ taken = '@' :: n ∧ Stops isNameChar rest := by
  refine Yields.part ?_ .sound
  refine (yields_mark '@').bind fun _ at' mid hat => ?_
  refine lays_name.weaken fun n taken rest hn _ => ⟨hn.1, ?_, hn.2.2⟩
  rw [hat, hn.2.1]
  rfl

theorem lays_accent : Yields (optional accent) fun mark taken _ =>
    taken = if mark.isSome then ['!'] else [] :=
  ((yields_mark '!').part .accent).optional (fun _ _ => rfl) fun _ _ _ htaken => htaken

/-- A hit that was read stands in the text and ends there. -/
theorem lays_hit : Yields hit fun s taken rest =>
    s.WellFormed ∧ taken = s.chars ∧ s.Ends rest := by
  have sounded : Yields (optional sound) fun s taken rest =>
      (∀ n ∈ s, SoundName n) ∧ taken = soundChars s ∧ SoundEnds s rest := by
    refine lays_sound.optional ?_ ?_
    · exact fun rest refused => ⟨nofun, rfl, ends_of_refuses_sound refused⟩
    · rintro n taken rest ⟨wf, rfl, ends⟩
      refine ⟨?_, rfl, ends⟩
      rintro m ⟨⟩
      exact wf
  refine Yields.part ?_ .hit
  refine lays_accent.bind fun mark accentTaken mid haccent => ?_
  refine (lays_numeral .weight).bind fun w weighed mid' hw => ?_
  refine sounded.bind fun s soundTaken mid'' hs => ?_
  refine yields_pure fun rest hmid'' hmid' _ => ⟨⟨hw.1, hs.1⟩, ?_, ?_⟩
  · rw [hit_chars, List.append_nil, haccent, hw.2.1, hs.2.1]
  · obtain rfl := hmid''
    refine ⟨fun silent => ?_, hs.2.2⟩
    -- without a sound the weight ends where the step does
    obtain rfl : s = none := silent
    obtain rfl : soundTaken = [] := hs.2.1
    rw [hmid'] at hw
    exact hw.2.2

/-- A step of either kind that was read stands in the text and ends there. -/
theorem lays_step : Yields step fun s taken rest =>
    s.WellFormed ∧ taken = s.chars ∧ s.Ends rest := (lays_rest.either lays_hit).part .step

theorem lays_comma :
    Yields (optional (mark ',')) fun _ taken _ => taken = [] ∨ taken = [','] :=
  (yields_mark ',').optional (fun _ _ => Or.inl rfl) fun _ _ _ htaken => Or.inr htaken

/-- A further step that was read stands behind a gap. -/
theorem lays_nextStep : Yields nextStep fun s taken rest =>
    s.WellFormed ∧ (∃ gap, Gap gap ∧ taken = gap ++ s.chars) ∧ s.Ends rest := by
  refine yields_blanks.bind fun _ before mid hbefore => ?_
  refine lays_comma.bind fun _ separator mid' hseparator => ?_
  refine yields_blanks.bind fun _ behind mid'' hbehind => ?_
  refine lays_step.weaken ?_
  rintro s taken rest ⟨wf, rfl, ends⟩ - - -
  exact ⟨wf, ⟨before ++ (separator ++ behind), .of_parts hbefore hseparator hbehind,
    by simp only [List.append_assoc]⟩, ends⟩

/-- Further steps that were read stand one behind the other. -/
theorem lays_others : Yields (repeated nextStep) fun steps taken rest =>
    (∀ s ∈ steps, s.WellFormed) ∧ Lined rest steps taken := by
  refine lays_nextStep.repeated (fun _ => ⟨nofun, .nil⟩) ?_
  rintro s steps _ more rest ⟨wf, ⟨gap, apart, rfl⟩, ends⟩ ⟨wfs, lined⟩
  refine ⟨List.forall_mem_cons.mpr ⟨wf, wfs⟩, ?_⟩
  rw [List.append_assoc]
  exact .cons apart ends lined

/-- Weights that were read are laid out in what was taken. -/
theorem lays_weights : Yields weights fun d taken _ => d.WellFormed ∧ d.Laid taken := by
  refine Yields.part ?_ .weights
  refine (yields_mark '[').bind fun _ bracket mid hbracket => ?_
  refine yields_blanks.bind fun _ opened mid₁ hopened => ?_
  refine lays_step.bind fun first firstTaken mid₂ hfirst => ?_
  refine lays_others.bind fun others othersTaken mid₃ hothers => ?_
  refine yields_blanks.bind fun _ closed mid₄ hclosed => ?_
  refine (yields_mark ']').bind fun _ close mid₅ hclose => ?_
  refine yields_pure fun rest h₅ h₄ h₃ h₂ _ _ => ?_
  obtain ⟨wfFirst, rfl, ends⟩ := hfirst
  obtain ⟨wfOthers, lined⟩ := hothers
  subst hbracket hclose
  -- what comes behind the bracket does not matter for the steps before it
  simp only [List.append_nil, List.append_assoc, List.singleton_append] at h₂ h₃
  rw [h₃] at lined
  obtain ⟨lined, same⟩ := lined.alike wfOthers (alike_closed hclosed rest [])
  rw [h₂] at ends
  refine ⟨List.forall_mem_cons.mpr ⟨wfFirst, wfOthers⟩, ?_⟩
  simp only [List.append_nil, List.singleton_append]
  exact .weights hopened (ends.alike same) lined hclosed

/-- A count that was read is laid out in what was taken. -/
theorem lays_count : Yields count fun d taken _ => d.WellFormed ∧ d.Laid taken := by
  refine Yields.part ?_ .count
  have digits : Yields (token scanDigits id) fun ds taken _ =>
      (Division.count ds).WellFormed ∧ taken = ds := by
    refine yields_token fun cs ds rest scanned => ?_
    obtain ⟨text, some, digits⟩ := scanDigits_sound scanned
    exact ⟨ds, text, ⟨some, digits⟩, rfl⟩
  refine digits.bind fun ds taken mid hds => ?_
  refine yields_pure fun rest _ => ⟨hds.1, ?_⟩
  rw [List.append_nil, hds.2]
  exact .count ds

/-- A span that was read stands behind its colon and blanks. -/
theorem lays_spanMark : Yields spanMark fun n taken _ =>
    n.WellFormed ∧ ∃ b, Blanks b ∧ taken = ':' :: (b ++ n.chars) := by
  refine (yields_mark ':').bind fun _ colon mid hcolon => ?_
  refine yields_blanks.bind fun _ behind mid' hbehind => ?_
  refine (lays_numeral .span).weaken fun n taken rest hn _ _ => ⟨hn.1, behind, hbehind, ?_⟩
  rw [hcolon, hn.2.1]
  rfl

/-- A group may leave blanks behind it or take them. -/
theorem lays_group : Yields group fun g taken _ =>
    g.WellFormed ∧ ∃ cs b, g.Laid cs ∧ Blanks b ∧ taken = cs ++ b := by
  refine Yields.part ?_ .group
  have spanned : Yields (optional spanMark) fun s taken _ =>
      (∀ n ∈ s, n.WellFormed)
        ∧ ∃ b, Blanks b ∧ taken = (s.map fun n => ':' :: (b ++ n.chars)).getD [] := by
    refine lays_spanMark.optional (fun _ _ => ⟨nofun, [], nofun, rfl⟩) ?_
    rintro n taken rest ⟨wf, b, behind, rfl⟩
    refine ⟨?_, b, behind, rfl⟩
    rintro m ⟨⟩
    exact wf
  refine (lays_weights.either lays_count).bind fun d divided mid hd => ?_
  refine yields_blanks.bind fun _ before mid' hbefore => ?_
  refine spanned.bind fun s spanTaken mid'' hs => ?_
  obtain ⟨wfSpan, b, hbehind, rfl⟩ := hs
  refine yields_pure fun rest _ _ _ => ⟨⟨hd.1, wfSpan⟩, ?_⟩
  rw [List.append_nil]
  cases s with
  | none => exact ⟨divided, before, .plain hd.2, hbefore, congrArg _ (List.append_nil _)⟩
  | some n => exact ⟨_, [], .spanned hd.2 hbefore hbehind n, nofun, (List.append_nil _).symm⟩

/-- A further group that was read stands behind its bar, and the blanks behind
it were taken too. -/
theorem lays_nextGroup : Yields nextGroup fun g taken _ =>
    g.WellFormed ∧ ∃ a b cs c, Blanks a ∧ Blanks b ∧ g.Laid cs ∧ Blanks c
      ∧ taken = a ++ '|' :: (b ++ (cs ++ c)) := by
  refine yields_blanks.bind fun _ before mid hbefore => ?_
  refine (yields_mark '|').bind fun _ bar mid' hbar => ?_
  refine yields_blanks.bind fun _ behind mid'' hbehind => ?_
  refine lays_group.weaken ?_
  rintro g taken rest ⟨wf, cs, c, laid, blanks, rfl⟩ - - -
  refine ⟨wf, before, behind, cs, c, hbefore, hbehind, laid, blanks, ?_⟩
  rw [hbar]
  rfl

/-- Further groups that were read stand behind their bars. -/
theorem lays_otherGroups : Yields (repeated nextGroup) fun groups taken _ =>
    (∀ g ∈ groups, g.WellFormed) ∧ Barred groups taken := by
  refine lays_nextGroup.repeated (fun _ => ⟨nofun, .nil nofun⟩) ?_
  rintro g groups _ more rest ⟨wf, a, b, cs, c, before, behind, laid, blanks, rfl⟩ ⟨wfs, barred⟩
  refine ⟨List.forall_mem_cons.mpr ⟨wf, wfs⟩, ?_⟩
  simp only [List.append_assoc, List.cons_append]
  exact .cons before behind laid (barred.blanks_append blanks)

/-- A pattern that was read is laid out in the text. -/
theorem lays_pattern : Yields pattern fun p taken _ => p.WellFormed ∧ p.Laid taken := by
  refine Yields.part ?_ .pattern
  have ended : Yields endOfText fun _ taken _ => taken = [] := yields_atEnd.part .endOfText
  refine yields_blanks.bind fun _ opened mid hopened => ?_
  refine lays_group.bind fun first firstTaken mid₁ hfirst => ?_
  refine lays_otherGroups.bind fun others othersTaken mid₂ hothers => ?_
  refine yields_blanks.bind fun _ closed mid₃ hclosed => ?_
  refine ended.bind fun _ last mid₄ hlast => ?_
  obtain ⟨wfFirst, cs, c, laid, blanks, rfl⟩ := hfirst
  refine yields_pure fun rest _ _ _ _ _ =>
    ⟨List.forall_mem_cons.mpr ⟨wfFirst, hothers.1⟩, ?_⟩
  subst hlast
  simp only [List.append_nil, List.append_assoc]
  exact .groups hopened laid ((hothers.2.append_blanks hclosed).blanks_append blanks)

/-- A pattern is spelled by the tokens of what was taken. -/
theorem spells_pattern :
    Yields pattern fun p taken _ => p.WellFormed ∧ tokens taken = p.chars :=
  lays_pattern.weaken fun _ _ _ laid => ⟨laid.1, laid.2.tokens laid.1⟩

/-- A pattern goes to the end of the text. -/
theorem ends_pattern : Ends pattern :=
  (ends_bind fun _ => ends_bind fun _ => ends_bind fun _ => ends_bind fun _ => ends_atEnd _).part _

end Grammar

-- ================================================================ texts

/-- A text is read as the pattern that is laid out in it. -/
theorem parse_eq_ok_iff {text : String} {p : Pattern} :
    parse text = .ok p ↔ p.WellFormed ∧ p.Laid text.toList := by
  unfold parse read
  constructor
  · intro parsed
    split at parsed
    next q after attempts answer =>
      cases parsed
      obtain ⟨taken, rest, wf, laid⟩ := Grammar.lays_pattern _ _ _ _ _ answer
      rw [Grammar.ends_pattern _ _ _ _ _ answer, List.append_nil] at rest
      rw [← rest] at laid
      exact ⟨wf, laid⟩
    next => cases parsed
  · rintro ⟨wf, laid⟩
    obtain ⟨last, reads⟩ := Grammar.reads_laid laid wf
    obtain ⟨offset, attempts, answer⟩ := reads 0 Attempts.none
    rw [answer]

/-- Every way of writing a pattern is read as the pattern; and of a text that
is read, what is left without blanks and commas is the tokens of the tree. -/
theorem parse_round_trip :
    (∀ (p : Pattern) (text : String), p.WellFormed → p.Written text.toList → parse text = .ok p)
      ∧ ∀ (text : String) (p : Pattern), parse text = .ok p →
        p.WellFormed
          ∧ text.toList.filter (fun c => !(Reader.isBlank c || c == ',')) = p.chars := by
  refine ⟨?_, ?_⟩
  · intro p text wf written
    obtain ⟨last, reads⟩ := Grammar.reads_pattern written wf
    obtain ⟨offset, attempts, answer⟩ := reads 0 Attempts.none
    unfold parse read
    rw [answer]
  · intro text p parsed
    unfold parse read at parsed
    split at parsed
    next q after attempts answer =>
      cases parsed
      obtain ⟨taken, rest, wf, spelled⟩ := Grammar.spells_pattern _ _ _ _ _ answer
      have ended := Grammar.ends_pattern _ _ _ _ _ answer
      rw [ended, List.append_nil] at rest
      refine ⟨wf, ?_⟩
      rw [← spelled, ← rest]
      rfl
    next => cases parsed

/-- A count with a span, and weights with a rest, a bare comma and a hit. -/
theorem parse_round_trip_mixed :
    ∃ p : Pattern, p.WellFormed ∧ p.Written " 2 : 1. |[~ 1,!.5@hi]\t".toList
      ∧ parse " 2 : 1. |[~ 1,!.5@hi]\t" = .ok p ∧ p.chars = "2:1.|[~1!.5@hi]".toList := by
  let weighed : Group := ⟨.weights (.rest none) [.hit ⟨false, ⟨['1'], none⟩, none⟩,
    .hit ⟨true, ⟨[], some ['5']⟩, some ['h', 'i']⟩], none⟩
  let p : Pattern := ⟨⟨.count ['2'], some ⟨['1'], some []⟩⟩, [weighed]⟩
  have wf : p.WellFormed := by decide
  have counted : p.first.Written "2 : 1.".toList :=
    .spanned (a := [' ']) (b := [' ']) (.count ['2']) (by decide) (by decide) ⟨['1'], some []⟩
  have listed : Listed [.hit ⟨false, ⟨['1'], none⟩, none⟩,
      .hit ⟨true, ⟨[], some ['5']⟩, some ['h', 'i']⟩] " 1,!.5@hi".toList :=
    .cons (.blank (a := [' ']) (by decide) (by decide))
      (.cons (.comma (a := []) (b := []) (by decide) (by decide)) .nil)
  have bracketed : weighed.Written "[~ 1,!.5@hi]".toList :=
    .plain (.weights (a := []) (b := []) (by decide) listed (by decide))
  have written : p.Written " 2 : 1. |[~ 1,!.5@hi]\t".toList :=
    .groups (a := [' ']) (b := ['\t']) (by decide) counted
      (.cons (a := [' ']) (b := []) (by decide) (by decide) bracketed .nil) (by decide)
  have parsed := parse_round_trip.1 p _ wf written
  exact ⟨p, wf, written, parsed, (parse_round_trip.2 _ p parsed).2.symm⟩

end Metrograph.Rhythm
