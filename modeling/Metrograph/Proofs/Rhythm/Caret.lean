/-
The caret under a text that is not read stands where the text could still
have become a pattern.

# What could become a pattern

A part of the notation is begun only behind characters that can be gone on
from (`Begun`). They are followed up the grammar: behind a step, in a list,
in a group, in the whole text, each time with what would complete them. In
a list the completion must not run into the steps that were read before it,
each of which ends where the text at hand goes on. So what is begun of a
list has to begin alike whatever follows (`ListBegun`).

# What is shown

The characters before the caret begin a pattern, so there is no line break
among them, and the caret stands in the first line of the text, or right
behind it. There is always a name to expect, since the pattern itself is a
part that has failed.
-/
import Metrograph.Proofs.Rhythm.Padding
import Metrograph.Proofs.Rhythm.Refusal
import Metrograph.Proofs.Rhythm.Tracking

namespace Metrograph.Rhythm

open Reader
open Text (followed_cons)

variable {q cs mid : List Char}

-- =============================================================== begun

/-- Characters that can be gone on from to a text in which something stands. -/
def Begun {β : Type} (Stands : β → List Char → Prop) (q : List Char) : Prop :=
  ∃ x v, Stands x (q ++ v)

/-- What is begun of a step. -/
structure StepBegun (q : List Char) : Prop where
  firm : q = [] ∨ Firm q
  begun : Begun (fun (s : Step) cs => s.WellFormed ∧ cs = s.chars) q

/-- What is begun of the further steps of a list. Completed it begins like
everything that it is the beginning of, so it leaves the end of the step before
it where it is. -/
def ListBegun (q : List Char) : Prop :=
  ∃ others v, (∀ s ∈ others, s.WellFormed) ∧ Lined [']'] others (q ++ v)
    ∧ ∀ rest, Alike (q ++ rest) (q ++ (v ++ [']']))

/-- What is begun of a division. -/
def DivisionBegun : List Char → Prop :=
  Begun fun (d : Division) cs => d.WellFormed ∧ d.Laid cs

/-- What is begun of a group. -/
def GroupBegun : List Char → Prop := Begun fun (g : Group) cs => g.WellFormed ∧ g.Laid cs

/-- What is begun of the further groups of a pattern. -/
def BarsBegun : List Char → Prop :=
  Begun fun (groups : List Group) cs => (∀ g ∈ groups, g.WellFormed) ∧ Barred groups cs

/-- What is begun of a pattern. -/
def PatternBegun : List Char → Prop := Begun fun (p : Pattern) cs => p.WellFormed ∧ p.Laid cs

/-- The number with which whatever lacks a number can go on. -/
def one : Numeral := ⟨['1'], none⟩

theorem one_wellFormed : one.WellFormed := by decide

/-- A step can be begun anywhere. -/
theorem stepBegun_nil : StepBegun [] :=
  ⟨Or.inl rfl, .hit ⟨false, one, none⟩, ['1'], by decide, rfl⟩

/-- A step that is complete but for some characters. -/
theorem stepBegun_of_chars {s : Step} (wf : s.WellFormed) (v : List Char)
    (text : q ++ v = s.chars) (firm : Firm q) : StepBegun q := ⟨Or.inr firm, s, v, wf, text⟩

/-- Behind the weight of a hit a sound may follow. -/
theorem stepBegun_of_weight {accent : Bool} {w : Numeral} (wf : w.WellFormed) :
    StepBegun (Step.hit ⟨accent, w, none⟩).chars
      ∧ StepBegun ((Step.hit ⟨accent, w, none⟩).chars ++ ['@']) := by
  have silent : (Step.hit ⟨accent, w, none⟩).WellFormed := ⟨wf, nofun⟩
  have loud : (Step.hit ⟨accent, w, some ['a']⟩).WellFormed := by
    refine ⟨wf, ?_⟩
    rintro n ⟨⟩
    decide
  refine ⟨stepBegun_of_chars silent [] (List.append_nil _) silent.firm,
    stepBegun_of_chars loud ['a'] ?_ (silent.firm.append ['@'])⟩
  rw [hit_chars, hit_chars]
  simp [soundChars]

/-- What is begun of a step is begun of a list behind a gap. -/
theorem listBegun_of_step {gap : List Char} (apart : Gap gap) (step : StepBegun q) :
    ListBegun (gap ++ q) := by
  obtain ⟨firm, s, v, wf, text⟩ := step
  by_cases nothing : gap ++ q = []
  · -- where nothing is begun the bracket can follow
    rw [nothing]
    exact ⟨[], [], nofun, .nil, fun rest => .closed (followed_cons List.mem_cons_self)⟩
  · have begins : Firm (gap ++ q) := by
      rcases firm with rfl | firm
      · rw [List.append_nil] at nothing ⊢
        exact apart.firm nothing
      · exact apart.firm_append firm
    have lined : Lined [']'] [s] (gap ++ (s.chars ++ [])) :=
      .cons apart (s.ends_of_followed (followed_cons (by decide))) .nil
    refine ⟨[s], v, List.forall_mem_cons.mpr ⟨wf, nofun⟩, ?_, fun rest => begins _ _⟩
    rw [List.append_assoc, text]
    rwa [List.append_nil] at lined

/-- A step that was read goes in front of what is begun behind it. -/
theorem ListBegun.cons {gap : List Char} (apart : Gap gap) {s : Step} (wf : s.WellFormed)
    (ends : s.Ends mid) (before : q <+: mid) (begun : ListBegun q) :
    ListBegun (gap ++ s.chars ++ q) := by
  obtain ⟨rest, rfl⟩ := before
  obtain ⟨others, v, wfs, lined, alike⟩ := begun
  refine ⟨s :: others, v, List.forall_mem_cons.mpr ⟨wf, wfs⟩, ?_, fun rest' => ?_⟩
  · have ends' : s.Ends ((q ++ v) ++ [']']) := by
      rw [List.append_assoc]
      exact ends.alike (alike rest)
    rw [List.append_assoc, List.append_assoc]
    exact .cons apart ends' lined
  · exact ((apart.firm_append wf.firm).append q) _ _

theorem divisionBegun_nil : DivisionBegun [] := ⟨.count ['1'], ['1'], by decide, .count _⟩

/-- A list of weights is begun with its first step. -/
theorem divisionBegun_of_step {a : List Char} (opened : Blanks a) (step : StepBegun q) :
    DivisionBegun ('[' :: (a ++ q)) := by
  obtain ⟨-, s, v, wf, text⟩ := step
  have laid : (Division.weights s []).Laid ('[' :: (a ++ (s.chars ++ ([] ++ ([] ++ [']']))))) :=
    .weights opened (s.ends_of_followed (followed_cons (by decide))) .nil nofun
  refine ⟨.weights s [], v ++ [']'], List.forall_mem_cons.mpr ⟨wf, nofun⟩, ?_⟩
  rw [List.cons_append, List.append_assoc, ← List.append_assoc q, text]
  exact laid

/-- It is begun as well with further steps behind a whole one. -/
theorem divisionBegun_of_list {a : List Char} (opened : Blanks a) {first : Step}
    (wf : first.WellFormed) (ends : first.Ends mid) (before : q <+: mid) (list : ListBegun q) :
    DivisionBegun ('[' :: (a ++ (first.chars ++ q))) := by
  obtain ⟨rest, rfl⟩ := before
  obtain ⟨others, v, wfs, lined, alike⟩ := list
  have ends' : first.Ends ((q ++ v) ++ ([] ++ [']'])) := by
    rw [List.nil_append, List.append_assoc]
    exact ends.alike (alike rest)
  have laid : (Division.weights first others).Laid
      ('[' :: (a ++ (first.chars ++ ((q ++ v) ++ ([] ++ [']']))))) :=
    .weights opened ends' lined nofun
  refine ⟨.weights first others, v ++ [']'], List.forall_mem_cons.mpr ⟨wf, wfs⟩, ?_⟩
  simpa using laid

/-- A group begins with its division. -/
theorem groupBegun_of_division (division : DivisionBegun q) : GroupBegun q := by
  obtain ⟨d, v, wf, laid⟩ := division
  exact ⟨⟨d, none⟩, v, ⟨wf, nofun⟩, .plain laid⟩

/-- A group whose span lacks its number is begun. -/
theorem groupBegun_of_span {d : Division} {a b : List Char} (wf : d.WellFormed) (laid : d.Laid cs)
    (before : Blanks a) (behind : Blanks b) : GroupBegun (cs ++ (a ++ (':' :: b))) := by
  refine ⟨⟨d, some one⟩, one.chars, ⟨wf, ?_⟩, ?_⟩
  · rintro n ⟨⟩
    exact one_wellFormed
  · have spanned := Group.Laid.spanned laid before behind one
    simpa using spanned

/-- A further group is begun behind its bar. -/
theorem barsBegun_of_group {a b : List Char} (before : Blanks a) (behind : Blanks b)
    (group : GroupBegun q) : BarsBegun (a ++ ('|' :: (b ++ q))) := by
  obtain ⟨g, v, wf, laid⟩ := group
  refine ⟨[g], v, List.forall_mem_cons.mpr ⟨wf, nofun⟩, ?_⟩
  have barred : Barred [g] (a ++ '|' :: (b ++ ((q ++ v) ++ []))) :=
    .cons before behind laid (.nil nofun)
  simpa using barred

/-- A pattern begins with its first group. -/
theorem patternBegun_of_group {a : List Char} (opened : Blanks a) (group : GroupBegun q) :
    PatternBegun (a ++ q) := by
  obtain ⟨g, v, wf, laid⟩ := group
  refine ⟨⟨g, []⟩, v, List.forall_mem_cons.mpr ⟨wf, nofun⟩, ?_⟩
  have whole : Pattern.Laid ⟨g, []⟩ (a ++ ((q ++ v) ++ [])) := .groups opened laid (.nil nofun)
  simpa using whole

/-- Blanks that were left behind the first group belong to what is begun. -/
theorem patternBegun_of_bars {a c : List Char} (opened : Blanks a) {first : Group}
    (wf : first.WellFormed) (laid : first.Laid cs) (left : Blanks c) (bars : BarsBegun q) :
    PatternBegun (a ++ (cs ++ c ++ q)) := by
  obtain ⟨others, v, wfs, barred⟩ := bars
  refine ⟨⟨first, others⟩, v, List.forall_mem_cons.mpr ⟨wf, wfs⟩, ?_⟩
  have whole : Pattern.Laid ⟨first, others⟩ (a ++ (cs ++ (c ++ (q ++ v)))) :=
    .groups opened laid (barred.blanks_append left)
  simpa using whole

-- ============================================================= readers

namespace Grammar

/-- A number is expected only where nothing of it was taken. -/
theorem tracks_numeral (kind : Part) :
    Tracks (part kind (token Numeral.scan Numeral.chars)) (· = []) := by
  have number : Tracks (token Numeral.scan Numeral.chars) (· = []) :=
    tracks_token fun _ _ _ scanned => (Numeral.scan_sound scanned).1
  exact number.part rfl kind

/-- Whatever is expected in a rest, the rest is begun there. -/
theorem tracks_rest : Tracks rest StepBegun := by
  have tilde : StepBegun ['~'] :=
    stepBegun_of_chars (s := .rest none) nofun [] rfl (firm_cons (by decide) (by decide) [])
  refine Tracks.part ?_ stepBegun_nil .rest
  refine (tracks_mark '~').bind (yields_mark '~') fun _ _ mid htilde => ?_
  refine ((tracks_numeral .weight).optional.weaken ?_).map _
  rintro _ rfl -
  rw [htilde]
  exact tilde

/-- A sound is expected in front of its mark, its name behind the mark. -/
theorem tracks_sound : Tracks sound fun q => q = [] ∨ q = ['@'] := by
  refine Tracks.part ?_ (Or.inl rfl) .sound
  refine (tracks_mark '@').bind (yields_mark '@') fun _ _ mid hat => ?_
  have letters : Tracks (token scanName id) (· = []) :=
    tracks_token fun _ _ _ scanned => (scanName_sound scanned).1
  refine (letters.part rfl .name).weaken ?_
  rintro _ rfl -
  exact Or.inr (by rw [hat]; rfl)

/-- Whatever is expected in a hit, the hit is begun there. -/
theorem tracks_hit : Tracks hit StepBegun := by
  have accented : Tracks (optional accent) StepBegun :=
    ((tracks_mark '!').part stepBegun_nil .accent).optional
  refine Tracks.part ?_ stepBegun_nil .hit
  refine accented.bind lays_accent fun mark taken mid htaken => ?_
  refine Tracks.bind ?_ (lays_numeral .weight) fun w weighed mid' hw => ?_
  · refine (tracks_numeral .weight).weaken ?_
    rintro _ rfl -
    rw [htaken, List.append_nil]
    cases mark with
    | none => exact stepBegun_nil
    | some _ =>
        exact stepBegun_of_chars (s := .hit ⟨true, one, none⟩) (by decide) ['1'] rfl
          (firm_cons (by decide) (by decide) [])
  · obtain ⟨wf, rfl, -⟩ := hw
    have chars : taken ++ w.chars = (Step.hit ⟨mark.isSome, w, none⟩).chars := by
      rw [hit_chars, htaken]
      simp [soundChars]
    refine (tracks_sound.optional.weaken ?_).map _
    rintro q (rfl | rfl) - -
    · rw [List.append_nil, chars]
      exact (stepBegun_of_weight wf).1
    · rw [← List.append_assoc, chars]
      exact (stepBegun_of_weight wf).2

theorem tracks_step : Tracks step StepBegun :=
  (tracks_rest.either tracks_hit).part stepBegun_nil .step

/-- Whatever is expected of a further step, the list is begun there. -/
theorem tracks_nextStep : Tracks nextStep ListBegun := by
  refine tracks_blanks.bind yields_blanks fun _ before mid hbefore => ?_
  refine (tracks_mark ',').optional.bind lays_comma fun _ separator mid' hseparator => ?_
  refine tracks_blanks.bind yields_blanks fun _ behind mid'' hbehind => ?_
  refine tracks_step.weaken fun q step _ _ _ => ?_
  have list := listBegun_of_step (.of_parts hbefore hseparator hbehind) step
  simpa using list

/-- Whatever is expected of further steps, the list is begun there. -/
theorem tracks_others : Tracks (repeated nextStep) ListBegun := by
  refine tracks_nextStep.repeated lays_nextStep ?_
  rintro s _ mid q ⟨wf, ⟨gap, apart, rfl⟩, ends⟩ before list
  exact list.cons apart wf ends before

/-- Whatever is expected in a list of weights, the division is begun there. -/
theorem tracks_weights : Tracks weights DivisionBegun := by
  refine Tracks.part ?_ divisionBegun_nil .weights
  refine (tracks_mark '[').bind (yields_mark '[') fun _ _ mid hbracket => ?_
  subst hbracket
  refine tracks_blanks.bind yields_blanks fun _ opened mid₁ hopened => ?_
  refine Tracks.bind ?_ lays_step fun first _ mid₂ hfirst => ?_
  · exact tracks_step.weaken fun q step _ _ => divisionBegun_of_step (a := opened) hopened step
  obtain ⟨wf, rfl, ends⟩ := hfirst
  refine Tracks.bind ?_ lays_others fun others _ mid₃ _ => ?_
  · exact tracks_others.weaken fun q list before _ _ =>
      divisionBegun_of_list hopened wf ends before list
  refine tracks_blanks.bind yields_blanks fun _ _ mid₄ _ => ?_
  exact (tracks_mark ']').map _

theorem tracks_count : Tracks count DivisionBegun := by
  have digits : Tracks (token scanDigits id) DivisionBegun :=
    tracks_token fun _ _ _ scanned => (scanDigits_sound scanned).1
  exact (digits.map _).part divisionBegun_nil .count

/-- The number of a span is expected behind its colon. -/
theorem tracks_spanMark : Tracks spanMark fun q => ∃ b, Blanks b ∧ q = ':' :: b := by
  refine (tracks_mark ':').bind (yields_mark ':') fun _ _ mid hcolon => ?_
  refine tracks_blanks.bind yields_blanks fun _ behind mid' hbehind => ?_
  refine (tracks_numeral .span).weaken ?_
  rintro _ rfl - -
  exact ⟨behind, hbehind, by rw [hcolon, List.append_nil]; rfl⟩

/-- Whatever is expected in a group, the group is begun there. -/
theorem tracks_group : Tracks group GroupBegun := by
  refine Tracks.part ?_ (groupBegun_of_division divisionBegun_nil) .group
  have divided : Tracks (either weights count) GroupBegun :=
    (tracks_weights.either tracks_count).weaken fun _ => groupBegun_of_division
  refine divided.bind (lays_weights.either lays_count) fun d _ mid hd => ?_
  refine tracks_blanks.bind yields_blanks fun _ before mid' hbefore => ?_
  refine (tracks_spanMark.optional.weaken ?_).map _
  rintro _ ⟨b, behind, rfl⟩ - -
  exact groupBegun_of_span hd.1 hd.2 hbefore behind

/-- Whatever is expected of a further group, the groups are begun there. -/
theorem tracks_nextGroup : Tracks nextGroup BarsBegun := by
  refine tracks_blanks.bind yields_blanks fun _ before mid hbefore => ?_
  refine (tracks_mark '|').bind (yields_mark '|') fun _ _ mid' hbar => ?_
  subst hbar
  refine tracks_blanks.bind yields_blanks fun _ behind mid'' hbehind => ?_
  exact tracks_group.weaken fun q group _ _ _ =>
    barsBegun_of_group (b := behind) hbefore hbehind group

/-- Whatever is expected of further groups, they are begun there. -/
theorem tracks_otherGroups : Tracks (repeated nextGroup) BarsBegun := by
  refine tracks_nextGroup.repeated lays_nextGroup ?_
  rintro g _ mid q ⟨wf, a, b, cs, c, before, behind, laid, blanks, rfl⟩ - bars
  obtain ⟨groups, v, wfs, barred⟩ := bars
  refine ⟨g :: groups, v, List.forall_mem_cons.mpr ⟨wf, wfs⟩, ?_⟩
  simp only [List.append_assoc, List.cons_append]
  exact .cons before behind laid (barred.blanks_append blanks)

/-- An empty text begins a pattern. -/
theorem patternBegun_nil : PatternBegun [] :=
  patternBegun_of_group (a := []) nofun (groupBegun_of_division divisionBegun_nil)

/-- A pattern is a part whose own parts are begun where a pattern is. -/
theorem tracks_pattern : ∃ r, pattern = part .pattern r ∧ Tracks r PatternBegun := by
  refine ⟨_, rfl, ?_⟩
  have atEnd' : Tracks atEnd (· = []) := tracks_atEnd
  have ended : Tracks endOfText (· = []) := atEnd'.part rfl .endOfText
  refine tracks_blanks.bind yields_blanks fun _ opened mid hopened => ?_
  refine Tracks.bind ?_ lays_group fun first _ mid₁ hfirst => ?_
  · exact tracks_group.weaken fun q group _ => patternBegun_of_group hopened group
  obtain ⟨wf, cs, c, laid, left, rfl⟩ := hfirst
  refine Tracks.bind ?_ lays_otherGroups fun others taken mid₂ hothers => ?_
  · exact tracks_otherGroups.weaken fun q bars _ _ =>
      patternBegun_of_bars hopened wf laid left bars
  refine tracks_blanks.bind yields_blanks fun _ closed mid₃ hclosed => ?_
  refine (ended.weaken ?_).map _
  rintro _ rfl - - - -
  -- what was read is a pattern already
  have bars : BarsBegun (taken ++ (closed ++ [])) := by
    refine ⟨others, [], hothers.1, ?_⟩
    rw [List.append_nil, List.append_nil]
    exact hothers.2.append_blanks hclosed
  exact patternBegun_of_bars hopened wf laid left bars

end Grammar

-- =============================================================== lines

namespace Misreading

/-- Without a line break before it a place is in the first line. -/
theorem position_of_unbroken (h : ∀ c ∈ q, c ≠ '\n') : position q = (1, 1 + q.length) := by
  have forward : ∀ line column, positionFrom line column q = (line, column + q.length) := by
    induction q with
    | nil => exact fun _ _ => rfl
    | cons c q ih =>
        intro line column
        obtain ⟨other, h⟩ := List.forall_mem_cons.mp h
        rw [positionFrom, if_neg other, ih h, List.length_cons]
        congr 1
        omega
  exact forward 1 1

/-- What has no line break in it belongs to the first line. -/
theorem lines_append (h : ∀ c ∈ q, c ≠ '\n' ∧ c ≠ '\r') (cs : List Char) :
    (lines (q ++ cs)).headD [] = q ++ (lines cs).headD [] := by
  induction q with
  | nil => rfl
  | cons c q ih =>
      obtain ⟨⟨newline, carriage⟩, h⟩ := List.forall_mem_cons.mp h
      rw [List.cons_append, List.cons_append, ← ih h, lines]
      · cases lines (q ++ cs) <;> rfl
      · exact newline
      · exact fun _ is => absurd is carriage

theorem lines_ne_nil (some : cs ≠ []) : lines cs ≠ [] := by
  unfold lines
  split
  next => exact absurd rfl some
  next => exact List.cons_ne_nil _ _
  next => exact List.cons_ne_nil _ _
  next =>
    split
    next => exact List.cons_ne_nil _ _
    next => exact List.cons_ne_nil _ _

/-- Every text has a first line. -/
theorem lineAt_one (cs : List Char) : lineAt cs 1 = some ((lines cs).headD []) := by
  unfold lineAt
  split
  next none =>
    rw [none]
    rfl
  next some =>
    cases h : lines cs with
    | nil => exact absurd h (lines_ne_nil some)
    | cons line others => rfl

end Misreading

-- ============================================================ the caret

namespace Attempts

/-- Some name is left to be expected. -/
theorem expected_ne_nil {a : Attempts} (named : a.parts ≠ []) : a.expected ≠ [] := by
  obtain ⟨part, hpart⟩ := List.exists_mem_of_ne_nil a.parts named
  have listed : part ∈ Part.all := by cases part <;> decide
  exact List.ne_nil_of_mem
    (List.mem_filter.mpr ⟨listed, List.contains_iff_mem.mpr hpart⟩)

end Attempts

/-- A place in a text up to which a pattern is begun. -/
def BegunAt (cs : List Char) (n : Nat) : Prop := n ≤ cs.length ∧ PatternBegun (cs.take n)

/-- Where reading a text gets stuck, what was read begins a pattern, and some
part is expected. -/
theorem stuck_of_parse {text : String} {m : Misreading}
    (failed : parse text = .error (.unreadable m)) :
    ∃ a : Attempts, m = misreading text.toList a ∧ a.expected ≠ []
      ∧ BegunAt text.toList a.place := by
  obtain ⟨r, pattern, tracks⟩ := Grammar.tracks_pattern
  have start : Attempts.none.Within (BegunAt text.toList) :=
    ⟨⟨Nat.zero_le _, Grammar.patternBegun_nil⟩, fun further => absurd further (Nat.lt_irrefl 0)⟩
  have all : ∀ q, q <+: text.toList → PatternBegun q → BegunAt text.toList (0 + q.length) := by
    intro q before begun
    rw [Nat.zero_add]
    exact ⟨before.length_le, List.prefix_iff_eq_take.mp before ▸ begun⟩
  have within := (tracks.part Grammar.patternBegun_nil .pattern).within ⟨0, text.toList⟩ _
    (BegunAt text.toList) all start
  unfold parse read at failed
  rw [pattern] at failed
  split at failed
  next => cases failed
  next a stuck =>
    cases failed
    rw [stuck] at within
    exact ⟨a, rfl,
      Attempts.expected_ne_nil (tracks.named_of_part Grammar.patternBegun_nil all start stuck),
      within.place⟩

/-- What begins a pattern has no line break in it, and can be gone on from to a
text that the grammar accepts. -/
theorem PatternBegun.accepts (begun : PatternBegun q) :
    (∀ c ∈ q, c ≠ '\n' ∧ c ≠ '\r')
      ∧ ∃ v pieces, Accepts (String.ofList (q ++ v)) pieces := by
  obtain ⟨p, v, wf, laid⟩ := begun
  refine ⟨fun c hc => ?_, v, p.pieces, ?_⟩
  · rcases laid.blank_or_visible wf c (List.mem_append_left v hc) with blank | visible
    · rcases isBlank_iff.mp blank with rfl | rfl
      · decide
      · decide
    · constructor
      · rintro rfl
        revert visible
        decide
      · rintro rfl
        revert visible
        decide
  · have parsed : parse (String.ofList (q ++ v)) = .ok p :=
      parse_eq_ok_iff.mpr ⟨wf, (String.toList_ofList (l := q ++ v)).symm ▸ laid⟩
    rcases parse_cases (String.ofList (q ++ v)) with ⟨p', parsed', -, accepts⟩ | ⟨m, failed, -⟩
    · cases parsed.symm.trans parsed'
      exact accepts
    · rw [parsed] at failed
      cases failed

/-- A text that a compilation finds unreadable is one that is not read. -/
theorem parse_of_unreadable {text : String} {m : Misreading}
    (refused : (compile text : Except Fault (Loop Float)) = .error (.unreadable m)) :
    parse text = .error (.unreadable m) := by
  rcases parse_cases text with ⟨p, parsed, wf, -⟩ | ⟨m', failed, -⟩
  · have judged := verdict_of_pattern parsed wf
    rw [refused] at judged
    exact absurd judged.symm (verdict_ne_unreadable p.pieces m)
  · unfold compile at refused
    rw [failed] at refused
    cases refused
    exact failed

/-- A misreading of a text that does not mislead: its column is in the first
line or right behind it, it expects something, the characters before the
column have no line break among them and can be gone on from to a text that
the grammar accepts, and it shows the first line with a caret under the
column. -/
structure Misreading.Honest (text : String) (m : Misreading) : Prop where
  column_pos : 1 ≤ m.column
  column_le : m.column ≤ ((lines text.toList).headD []).length + 1
  expected : m.expected ≠ []
  message : m.message = "expected " ++ enumerate (m.expected.map Part.label)
  unbroken : ∀ c ∈ text.toList.take (m.column - 1), c ≠ '\n' ∧ c ≠ '\r'
  completable : ∃ v pieces, Accepts (String.ofList (text.toList.take (m.column - 1) ++ v)) pieces
  context : m.context = "  " ++ String.ofList ((lines text.toList).headD []) ++ "\n  "
    ++ String.ofList (List.replicate (m.column - 1) ' ') ++ "^"
  found : m.context ≠ "Unable to determine error context"

/-- Every text that is refused as unreadable is refused with an honest
misreading. -/
theorem honest_of_unreadable {text : String} {m : Misreading}
    (refused : (compile text : Except Fault (Loop Float)) = .error (.unreadable m)) :
    m.Honest text := by
  obtain ⟨a, rfl, expected, short, begun⟩ := stuck_of_parse (parse_of_unreadable refused)
  obtain ⟨unbroken, completable⟩ := begun.accepts
  -- the place is in the first line, so its column is counted from the start
  have position := Misreading.position_of_unbroken fun c hc => (unbroken c hc).1
  have inside := Misreading.lines_append unbroken (text.toList.drop a.place)
  rw [List.take_append_drop] at inside
  rw [List.length_take_of_le short] at position
  have fields : misreading text.toList a = ⟨1 + a.place, a.expected,
      some (String.ofList ((Misreading.lines text.toList).headD []))⟩ := by
    unfold misreading
    rw [position]
    dsimp only
    rw [Misreading.lineAt_one]
    rfl
  have place : 1 + a.place - 1 = a.place := Nat.add_sub_cancel_left 1 a.place
  rw [fields]
  refine ⟨Nat.le_add_right 1 _, ?_, expected, ?_, ?_, ?_, rfl, fun same => ?_⟩
  · rw [inside, List.length_append, List.length_take_of_le short]
    dsimp only
    omega
  · unfold Misreading.message
    dsimp only
    split
    next none => exact absurd none expected
    next => rfl
  · dsimp only
    rw [place]
    exact unbroken
  · dsimp only
    rw [place]
    exact completable
  · -- the line is indented
    have first := congrArg (fun context : String => context.toList.head?) same
    simp [Misreading.context] at first

/-- A sound mark without a name, in a line that goes on with a character of more
than one byte and ends with a carriage return and a newline. -/
theorem honest_of_unreadable_soundMark :
    (compile "[~2 1@é\r\n3]" : Except Fault (Loop Float))
        = .error (.unreadable ⟨7, [.name], some "[~2 1@é"⟩)
      ∧ Misreading.Honest "[~2 1@é\r\n3]" ⟨7, [.name], some "[~2 1@é"⟩ := by
  have refused : (compile "[~2 1@é\r\n3]" : Except Fault (Loop Float))
      = .error (.unreadable ⟨7, [.name], some "[~2 1@é"⟩) := by decide +kernel
  exact ⟨refused, honest_of_unreadable refused⟩

end Metrograph.Rhythm
