/-
The characters of a text that is read, and what may stand around it.

Beside its blanks a text that is read consists of visible characters
(`blank_or_visible`), for so do the tokens. So of all the white space there
is, only spaces and tabs may stand in it, at its ends or elsewhere.

At the ends they make no difference. Blanks in front go with those that
open the pattern. Blanks behind go with those that close it, since a group
never ends with one (`Group.Laid.solid`); and a text that loses its blanks
behind loses them from the last group's end alone (`Barred.of_append`).
-/
import Metrograph.Proofs.Rhythm.Compiled
import Metrograph.Proofs.Rhythm.RoundTrip
import Metrograph.Proofs.Text.Trimming

namespace Metrograph.Rhythm

open Reader (isBlank)
open Text (Digits Stops)

variable {cs ds : List Char} {c : Char}

-- ============================================================= visible

/-- A printed character of the ASCII set. -/
def Visible (c : Char) : Prop := 33 ≤ c.toNat ∧ c.toNat ≤ 126

instance (c : Char) : Decidable (Visible c) :=
  inferInstanceAs (Decidable (33 ≤ c.toNat ∧ c.toNat ≤ 126))

/-- What is printed is no white space. -/
theorem Visible.not_white (h : Visible c) : Text.isBlank c = false := by
  unfold Visible at h
  unfold Text.isBlank
  simp only [Bool.or_eq_false_iff, decide_eq_false_iff_not, beq_eq_false_iff_ne]
  omega

/-- Between two visible characters there are only visible ones. -/
theorem Visible.of_between {low high : Char} (hl : Visible low) (hh : Visible high)
    (above : low.val ≤ c.val) (below : c.val ≤ high.val) : Visible c :=
  ⟨hl.1.trans (UInt32.le_iff_toNat_le.mp above), (UInt32.le_iff_toNat_le.mp below).trans hh.2⟩

theorem visible_of_isNameChar (h : isNameChar c = true) : Visible c := by
  have upper : Visible 'A' ∧ Visible 'Z' := by decide
  have lower : Visible 'a' ∧ Visible 'z' := by decide
  have digit : Visible '0' ∧ Visible '9' := by decide
  unfold isNameChar at h
  simp only [Bool.or_eq_true, beq_iff_eq] at h
  rcases h with (alphanum | rfl) | rfl
  · rcases Bool.or_eq_true_iff.mp alphanum with letter | figure
    · rcases Bool.or_eq_true_iff.mp letter with capital | small
      · obtain ⟨above, below⟩ := of_decide_eq_true capital
        exact .of_between upper.1 upper.2 above below
      · obtain ⟨above, below⟩ := Bool.and_eq_true_iff.mp small
        exact .of_between lower.1 lower.2 (of_decide_eq_true above) (of_decide_eq_true below)
    · obtain ⟨above, below⟩ := Bool.and_eq_true_iff.mp figure
      exact .of_between digit.1 digit.2 (of_decide_eq_true above) (of_decide_eq_true below)
  · decide
  · decide

/-- Digits are printed. -/
theorem visible_of_digits (h : Digits cs) : ∀ c ∈ cs, Visible c := by
  intro c hc
  refine visible_of_isNameChar ?_
  unfold isNameChar Char.isAlphanum
  rw [h c hc, Bool.or_true]
  rfl

/-- All characters of a number are printed. -/
theorem Numeral.WellFormed.visible {n : Numeral} (wf : n.WellFormed) :
    ∀ c ∈ n.chars, Visible c := by
  obtain ⟨whole, fraction⟩ := n
  cases fraction with
  | none => exact visible_of_digits wf.2
  | some digits =>
      exact List.forall_mem_append.mpr ⟨visible_of_digits wf.1,
        List.forall_mem_cons.mpr ⟨by decide, visible_of_digits wf.2.1⟩⟩

/-- All characters of a name are printed. -/
theorem SoundName.visible (h : SoundName cs) : ∀ c ∈ cs, Visible c := by
  cases cs with
  | nil => exact nofun
  | cons c cs =>
      refine List.forall_mem_cons.mpr ⟨visible_of_isNameChar ?_,
        fun d hd => visible_of_isNameChar (h.2 d hd)⟩
      unfold isNameChar Char.isAlphanum
      rw [h.1]
      rfl

theorem Step.WellFormed.visible {s : Step} (wf : s.WellFormed) : ∀ c ∈ s.chars, Visible c := by
  cases s with
  | rest weight =>
      refine List.forall_mem_cons.mpr ⟨by decide, ?_⟩
      cases weight with
      | none => exact nofun
      | some n => exact Numeral.WellFormed.visible (wf n rfl)
  | hit h =>
      obtain ⟨accent, weight, sound⟩ := h
      rw [hit_chars]
      refine List.forall_mem_append.mpr ⟨?_, List.forall_mem_append.mpr
        ⟨Numeral.WellFormed.visible wf.1, ?_⟩⟩
      · cases accent with
        | true => exact List.forall_mem_singleton.mpr (by decide)
        | false => exact nofun
      · cases sound with
        | none => exact nofun
        | some name =>
            exact List.forall_mem_cons.mpr ⟨by decide, SoundName.visible (wf.2 name rfl)⟩

/-- All characters of a division are printed. -/
theorem Division.WellFormed.visible {d : Division} (wf : d.WellFormed) :
    ∀ c ∈ d.chars, Visible c := by
  cases d with
  | count digits => exact visible_of_digits wf.2
  | weights first others =>
      refine List.forall_mem_cons.mpr ⟨by decide, List.forall_mem_append.mpr
        ⟨fun c hc => ?_, List.forall_mem_singleton.mpr (by decide)⟩⟩
      obtain ⟨s, hs, hc⟩ := List.mem_flatMap.mp hc
      exact (wf s hs).visible c hc

theorem Group.WellFormed.visible {g : Group} (wf : g.WellFormed) : ∀ c ∈ g.chars, Visible c := by
  obtain ⟨division, span⟩ := g
  refine List.forall_mem_append.mpr ⟨wf.1.visible, ?_⟩
  cases span with
  | none => exact nofun
  | some n => exact List.forall_mem_cons.mpr ⟨by decide, (wf.2 n rfl).visible⟩

/-- All characters of a pattern are printed, so white space in it is blanks. -/
theorem Pattern.WellFormed.visible {p : Pattern} (wf : p.WellFormed) :
    ∀ c ∈ p.chars, Visible c := by
  refine List.forall_mem_append.mpr ⟨(wf _ List.mem_cons_self).visible, fun c hc => ?_⟩
  obtain ⟨g, hg, hc⟩ := List.mem_flatMap.mp hc
  rcases List.mem_cons.mp hc with rfl | hc
  · decide
  · exact (wf g (List.mem_cons_of_mem _ hg)).visible c hc

/-- A text that is read has nothing in it but blanks and visible characters. -/
theorem Pattern.Laid.blank_or_visible {p : Pattern} (laid : p.Laid cs) (wf : p.WellFormed) :
    ∀ c ∈ cs, isBlank c = true ∨ Visible c := by
  intro c hc
  by_cases token : (!(isBlank c || c == ',')) = true
  · have spelled : c ∈ p.chars := laid.tokens wf ▸ List.mem_filter.mpr ⟨hc, token⟩
    exact Or.inr (wf.visible c spelled)
  · rw [Bool.not_eq_true', Bool.not_eq_false, Bool.or_eq_true, beq_iff_eq] at token
    rcases token with blank | rfl
    · exact Or.inl blank
    · exact Or.inr (by decide)

/-- So the only white space in it are blanks. -/
theorem Pattern.Laid.isBlank_of_white {p : Pattern} (laid : p.Laid cs) (wf : p.WellFormed)
    (hc : c ∈ cs) (white : Text.isBlank c = true) : isBlank c = true := by
  refine (laid.blank_or_visible wf c hc).resolve_right fun visible => ?_
  rw [visible.not_white] at white
  cases white

-- ============================================================= padding

/-- A text goes on to its end with something that is no blank. -/
def Solid (cs : List Char) : Prop := ∀ c ∈ cs.getLast?, isBlank c = false

/-- Only the end of a text counts. -/
theorem Solid.append (h : Solid ds) (some : ds ≠ []) (cs : List Char) : Solid (cs ++ ds) := by
  intro c hc
  have last := List.getLast?_eq_some_getLast some
  rw [List.getLast?_append, last] at hc
  exact h c (last ▸ hc)

/-- Printed characters are no blanks. -/
theorem solid_of_visible (h : ∀ c ∈ cs, Visible c) : Solid cs := by
  intro c hc
  by_contra blank
  have visible := h c (List.mem_of_mem_getLast? hc)
  rcases isBlank_iff.mp (Bool.not_eq_false _ ▸ blank) with rfl | rfl
  · revert visible
    decide
  · revert visible
    decide

/-- Blanks at the end of a text do not reach into a part that ends without. -/
theorem Solid.of_append {front more b : List Char} (solid : Solid front)
    (text : front ++ more = cs ++ b) (blanks : Blanks b) :
    ∃ z, cs = front ++ z ∧ more = z ++ b := by
  rcases List.append_eq_append_iff.mp text with ⟨z, hcs, hmore⟩ | ⟨z, hfront, hb⟩
  · exact ⟨z, hcs, hmore⟩
  · rcases List.eq_nil_or_concat z with rfl | ⟨z, c, rfl⟩
    · rw [List.append_nil] at hfront
      exact ⟨[], by rw [hfront, List.append_nil], hb.symm⟩
    · have last : c ∈ front.getLast? := by
        rw [hfront, List.concat_eq_append, ← List.append_assoc, List.getLast?_concat]
        rfl
      have blank : isBlank c = true := blanks c (by rw [hb]; simp)
      rw [solid c last] at blank
      cases blank

/-- A group ends with a digit, a point or a bracket. -/
theorem Group.Laid.solid {g : Group} (laid : g.Laid cs) (wf : g.WellFormed) :
    Solid cs ∧ cs ≠ [] := by
  have division {d : Division} {cs : List Char} (laid : d.Laid cs) (wf : d.WellFormed) :
      Solid cs ∧ cs ≠ [] := by
    cases laid with
    | count => exact ⟨solid_of_visible (visible_of_digits wf.2), wf.1⟩
    | @weights first others a cs b =>
        have text : '[' :: (a ++ (first.chars ++ (cs ++ (b ++ [']']))))
            = '[' :: (a ++ (first.chars ++ (cs ++ b))) ++ [']'] := by simp
        rw [text]
        have bracket : Solid [']'] :=
          solid_of_visible (List.forall_mem_singleton.mpr (by decide))
        exact ⟨bracket.append (List.cons_ne_nil _ _) _, List.append_ne_nil_of_right_ne_nil _ nofun⟩
  cases laid with
  | plain laid => exact division laid wf.1
  | @spanned _ cs a b laid before behind n =>
      have number : n.WellFormed := wf.2 n rfl
      have text : cs ++ (a ++ ':' :: (b ++ n.chars)) = cs ++ (a ++ ':' :: b) ++ n.chars := by simp
      rw [text]
      exact ⟨(solid_of_visible number.visible).append number.chars_ne_nil _,
        List.append_ne_nil_of_right_ne_nil _ number.chars_ne_nil⟩

/-- Blanks at the end can be taken away: every group ends in something else. -/
theorem Barred.of_append {groups : List Group} {b : List Char} (h : Barred groups (cs ++ b))
    (wf : ∀ g ∈ groups, g.WellFormed) (blanks : Blanks b) : Barred groups cs := by
  generalize text : cs ++ b = whole at h
  induction h generalizing cs with
  | nil closed =>
      subst text
      exact .nil fun c hc => closed c (List.mem_append_left b hc)
  | @cons g rest a b' x more before behind laid barred ih =>
      obtain ⟨solid, some⟩ := laid.solid (wf g List.mem_cons_self)
      have front : a ++ '|' :: (b' ++ (x ++ more)) = (a ++ '|' :: b') ++ x ++ more := by simp
      rw [front] at text
      obtain ⟨z, rfl, hmore⟩ := (solid.append some (a ++ '|' :: b')).of_append text.symm blanks
      have rest := ih (fun t ht => wf t (List.mem_cons_of_mem _ ht)) hmore.symm
      have cut : (a ++ '|' :: b') ++ x ++ z = a ++ '|' :: (b' ++ (x ++ z)) := by simp
      rw [cut]
      exact .cons before behind laid rest

/-- Blanks at the ends of a text neither help nor harm. -/
theorem Pattern.laid_padded {p : Pattern} (wf : p.WellFormed) {a b : List Char}
    (opened : Blanks a) (closed : Blanks b) : p.Laid (a ++ (cs ++ b)) ↔ p.Laid cs := by
  constructor
  · intro laid
    generalize text : a ++ (cs ++ b) = whole at laid
    cases laid with
    | @groups first others o x more before laid barred =>
        have wfFirst : first.WellFormed := wf first List.mem_cons_self
        have solidFront : Stops isBlank (x ++ more) :=
          laid.stops wfFirst (fun _ => isDigit_isBlank) rfl _
        -- the group and what follows are what is left when blanks are dropped
        have rest : (cs ++ b).dropWhile isBlank = x ++ more := by
          have dropped := congrArg (List.dropWhile isBlank) text
          rwa [solidFront.dropWhile before, List.dropWhile_append_of_pos opened] at dropped
        have front : Blanks ((cs ++ b).takeWhile isBlank) :=
          List.all_eq_true.mp List.all_takeWhile
        have whole := List.takeWhile_append_dropWhile (p := isBlank) (l := cs ++ b)
        rw [rest, ← List.append_assoc] at whole
        obtain ⟨solid, some⟩ := laid.solid wfFirst
        obtain ⟨z, hcs, rfl⟩ := (solid.append some _).of_append whole closed
        rw [hcs, List.append_assoc]
        have cut : Barred others z :=
          Barred.of_append barred (fun g hg => wf g (List.mem_cons_of_mem _ hg)) closed
        exact .groups front laid cut
  · intro laid
    cases laid with
    | @groups first others o x more before laid barred =>
        have text : a ++ (o ++ (x ++ more) ++ b) = (a ++ o) ++ (x ++ (more ++ b)) := by simp
        rw [text]
        exact .groups (fun c hc => (List.mem_append.mp hc).elim (opened c) (before c)) laid
          (barred.append_blanks closed)

/-- White space at the ends of a text that is read is blanks, and without it
the text is read alike. -/
theorem parse_padded {a b : List Char} (front : ∀ c ∈ a, Text.isBlank c = true)
    (back : ∀ c ∈ b, Text.isBlank c = true) {p : Pattern} :
    parse (String.ofList (a ++ (cs ++ b))) = .ok p
      ↔ (Blanks a ∧ Blanks b) ∧ parse (String.ofList cs) = .ok p := by
  rw [parse_eq_ok_iff, parse_eq_ok_iff, String.toList_ofList, String.toList_ofList]
  constructor
  · rintro ⟨wf, laid⟩
    have opened : Blanks a := fun c hc =>
      laid.isBlank_of_white wf (List.mem_append_left _ hc) (front c hc)
    have closed : Blanks b := fun c hc =>
      laid.isBlank_of_white wf (List.mem_append_right _ (List.mem_append_right _ hc)) (back c hc)
    exact ⟨⟨opened, closed⟩, wf, (Pattern.laid_padded wf opened closed).mp laid⟩
  · rintro ⟨⟨opened, closed⟩, wf, laid⟩
    exact ⟨wf, (Pattern.laid_padded wf opened closed).mpr laid⟩

-- ============================================================ trimming

/-- The white space at the ends of a text is spaces and tabs. -/
def EndsInBlanks (text : String) : Prop :=
  ∃ a b, Blanks a ∧ Blanks b ∧ text.toList = a ++ (Text.trimChars text.toList ++ b)

variable {text : String}

/-- Blanks are white space. -/
theorem Blanks.white (h : Blanks cs) : ∀ c ∈ cs, Text.isBlank c = true := by
  intro c hc
  rcases isBlank_iff.mp (h c hc) with rfl | rfl
  · decide
  · decide

/-- A text is read if it is read when it is trimmed and was trimmed of spaces
and tabs alone. -/
theorem parse_trim {p : Pattern} :
    parse text = .ok p ↔ EndsInBlanks text ∧ parse (Text.trim text) = .ok p := by
  have whole {cs : List Char} (same : text.toList = cs) : text = String.ofList cs := by
    rw [← same, String.ofList_toList]
  constructor
  · intro parsed
    obtain ⟨a, b, front, back, same⟩ := Text.exists_trimChars text.toList
    rw [whole same, parse_padded front back] at parsed
    exact ⟨⟨a, b, parsed.1.1, parsed.1.2, same⟩, parsed.2⟩
  · rintro ⟨⟨a, b, opened, closed, same⟩, parsed⟩
    rw [whole same, parse_padded opened.white closed.white]
    exact ⟨⟨opened, closed⟩, parsed⟩

section

variable {α : Type} [Scalar α] {loop : Loop α}

/-- Texts that are read alike compile alike. -/
theorem compile_of_parse {other : String} {p : Pattern} (here : parse text = .ok p)
    (there : parse other = .ok p) (compiled : compile text = .ok loop) :
    compile other = .ok { loop with source := other } := by
  unfold compile at compiled ⊢
  obtain ⟨q, parsed, compiled⟩ := bind_eq_ok.mp compiled
  cases here.symm.trans parsed
  obtain ⟨groups, measured, compiled⟩ := bind_eq_ok.mp compiled
  refine bind_eq_ok.mpr ⟨p, there, bind_eq_ok.mpr ⟨groups, measured, ?_⟩⟩
  dsimp only at compiled ⊢
  split at compiled
  next => cases compiled
  next sounding =>
    rw [if_neg sounding]
    split at compiled
    next => cases compiled
    next few =>
      rw [if_neg few]
      cases compiled
      rfl

/-- A text that compiles has only blanks around it, and compiles to the same loop
without them. -/
theorem compile_trim (compiled : compile text = .ok loop) :
    EndsInBlanks text ∧ compile (Text.trim text) = .ok { loop with source := Text.trim text } := by
  obtain ⟨p, -, parsed, -⟩ := compile_eq_ok compiled
  obtain ⟨ends, trimmed⟩ := parse_trim.mp parsed
  exact ⟨ends, compile_of_parse parsed trimmed compiled⟩

/-- Blanks around a text that compiles do no harm. -/
theorem compile_of_trim (ends : EndsInBlanks text)
    (compiled : compile (Text.trim text) = .ok loop) :
    compile text = .ok { loop with source := text } := by
  obtain ⟨p, -, parsed, -⟩ := compile_eq_ok compiled
  exact compile_of_parse parsed (parse_trim.mpr ⟨ends, parsed⟩) compiled

end

end Metrograph.Rhythm
