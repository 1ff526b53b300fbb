/-
Exactly the texts in which a pattern can stand.

# Ends

`Written` keeps the steps of a list apart by blanks or commas. The notation
does not insist on that: in `[1~2]` a hit is followed by a rest, while
`[12]` is one hit. What counts is that each step ends where the text goes
on, since a reader takes all that can belong to it (`Step.Ends`). `Laid`
lays a tree out under this condition alone, so it covers every text that
the tree can be read from.

# Beginnings

Where a step ends is decided by the first two characters after it, and
mostly by the first. So a step that ends before a text also ends before
every text that begins alike (`Alike`), and whatever begins with a step
or a gap between steps begins alike however it goes on (`Firm`).
-/
import Metrograph.Proofs.Rhythm.Spelling

namespace Metrograph.Rhythm

open Reader (isBlank)
open Text (Digits Followed Stops followed_cons ne_of_kind stops_cons)

variable {cs ds after : List Char}

-- ================================================================ ends

/-- A text does not begin with a mark and a character of a kind behind it. -/
def StopsBehind (mark : Char) (p : Char → Bool) (cs : List Char) : Prop :=
  ∀ rest, cs = mark :: rest → Stops p rest

/-- A number goes no further than to the text after it. -/
def Numeral.Ends (n : Numeral) (after : List Char) : Prop :=
  Stops Char.isDigit after ∧ (n.fraction = none → Stops (· == '.') after)

/-- A sound, or a missing one, goes no further than to the text after it. -/
def SoundEnds : Option (List Char) → List Char → Prop
  | none, after => StopsBehind '@' Char.isAlpha after
  | some _, after => Stops isNameChar after

/-- A step goes no further than to the text after it. -/
def Step.Ends : Step → List Char → Prop
  | .rest none, after => Stops Char.isDigit after ∧ StopsBehind '.' Char.isDigit after
  | .rest (some n), after => n.Ends after
  | .hit h, after => (h.sound = none → h.weight.Ends after) ∧ SoundEnds h.sound after

/-- Where the mark itself does not stand, nothing can stand behind it. -/
theorem stopsBehind_of_stops {mark : Char} {p : Char → Bool} (h : Stops (· == mark) cs) :
    StopsBehind mark p cs := by
  rintro rest rfl
  have other : (mark == mark) = false := h mark rfl
  rw [beq_self_eq_true] at other
  cases other

/-- What may follow a step in a list: a blank, a comma or the bracket. -/
def stepEnds : List Char := [' ', '\t', ',', ']']

/-- A number ends in front of any marks that are no digits and no points. -/
theorem Numeral.ends_of_followed (n : Numeral) {marks : List Char} (h : Followed marks after)
    (digit : marks.any Char.isDigit = false) (point : marks.any (· == '.') = false) :
    n.Ends after := ⟨h.stops digit, fun _ => h.stops point⟩

/-- Every step ends before a blank, a comma and the bracket. -/
theorem Step.ends_of_followed (s : Step) (h : Followed stepEnds after) : s.Ends after := by
  cases s with
  | rest weight =>
      cases weight with
      | none => exact ⟨h.stops (by decide), stopsBehind_of_stops (h.stops (by decide))⟩
      | some n => exact n.ends_of_followed h (by decide) (by decide)
  | hit h' =>
      obtain ⟨accent, weight, sound⟩ := h'
      refine ⟨fun _ => weight.ends_of_followed h (by decide) (by decide), ?_⟩
      cases sound with
      | none => exact stopsBehind_of_stops (h.stops (by decide))
      | some name => exact Followed.stops h (by decide)

-- ========================================================== beginnings

/-- A text begins like another as far as the end of a step depends on it, or it
closes the list. -/
inductive Alike : List Char → List Char → Prop
  | closed {cs ds : List Char} (closes : Followed [']'] ds) : Alike cs ds
  | one {c : Char} {cs ds : List Char} (point : c ≠ '.') (sound : c ≠ '@') :
      Alike (c :: cs) (c :: ds)
  | two {c d : Char} {cs ds : List Char} : Alike (c :: d :: cs) (c :: d :: ds)

/-- What begins with some characters begins alike. -/
def Firm (q : List Char) : Prop := ∀ cs ds, Alike (q ++ cs) (q ++ ds)

/-- Texts that begin alike begin with characters of the same kinds, except for
the bracket. -/
theorem Alike.stops {p : Char → Bool} (h : Alike cs ds) (stops : Stops p cs)
    (bracket : p ']' = false) : Stops p ds := by
  cases h with
  | closed closes => exact closes.stops (by simp [bracket])
  | one | two => exact stops

/-- The second character matters only behind a point and in front of a sound,
and there the texts agree on it. -/
theorem Alike.stopsBehind {mark : Char} {p : Char → Bool} (h : Alike cs ds)
    (stops : StopsBehind mark p cs) (either : mark = '.' ∨ mark = '@') : StopsBehind mark p ds := by
  rintro rest rfl
  cases h with
  | closed closes =>
      cases List.mem_singleton.mp (closes mark rfl)
      rcases either with point | sound
      · cases point
      · cases sound
  | one point sound => exact absurd either (not_or.mpr ⟨point, sound⟩)
  | @two _ d cs ds => exact fun c hc => stops (d :: cs) rfl c hc

/-- Before texts that begin alike a number ends alike. -/
theorem Numeral.Ends.alike {n : Numeral} (ends : n.Ends cs) (h : Alike cs ds) : n.Ends ds :=
  ⟨h.stops ends.1 rfl, fun whole => h.stops (ends.2 whole) rfl⟩

/-- Before texts that begin alike a step ends alike. -/
theorem Step.Ends.alike {s : Step} (ends : s.Ends cs) (h : Alike cs ds) : s.Ends ds := by
  cases s with
  | rest weight =>
      cases weight with
      | none => exact ⟨h.stops ends.1 rfl, h.stopsBehind ends.2 (Or.inl rfl)⟩
      | some n => exact Numeral.Ends.alike ends h
  | hit h' =>
      obtain ⟨accent, weight, sound⟩ := h'
      refine ⟨fun silent => (ends.1 silent).alike h, ?_⟩
      cases sound with
      | none => exact h.stopsBehind ends.2 (Or.inr rfl)
      | some name => exact h.stops ends.2 rfl

/-- Any first character fixes how a text begins, unless another one counts with it. -/
theorem firm_cons {c : Char} (point : c ≠ '.') (sound : c ≠ '@') (q : List Char) :
    Firm (c :: q) := fun _ _ => .one point sound

theorem Firm.append {q : List Char} (h : Firm q) (t : List Char) : Firm (q ++ t) := by
  intro cs ds
  rw [List.append_assoc, List.append_assoc]
  exact h _ _

/-- A number fixes how the text that it begins with begins. -/
theorem Numeral.WellFormed.firm {n : Numeral} (wf : n.WellFormed) : Firm n.chars := by
  obtain ⟨whole, fraction⟩ := n
  have digits {c : Char} {cs : List Char} (digit : c.isDigit = true) : Firm (c :: cs) :=
    firm_cons (ne_of_kind digit rfl) (ne_of_kind digit rfl) cs
  cases fraction with
  | none =>
      cases whole with
      | nil => exact absurd rfl wf.1
      | cons c whole => exact digits (wf.2 c List.mem_cons_self)
  | some fraction =>
      cases whole with
      | nil =>
          cases fraction with
          | nil => exact absurd rfl (wf.2.2.resolve_left (absurd rfl))
          | cons d fraction => exact fun _ _ => .two
      | cons c whole => exact digits (wf.1 c List.mem_cons_self)

/-- So does a step. -/
theorem Step.WellFormed.firm {s : Step} (wf : s.WellFormed) : Firm s.chars := by
  cases s with
  | rest weight => exact firm_cons (by decide) (by decide) _
  | hit h =>
      obtain ⟨accent, weight, sound⟩ := h
      rw [hit_chars]
      cases accent with
      | true => exact firm_cons (by decide) (by decide) _
      | false => exact (Numeral.WellFormed.firm wf.1).append _

-- =============================================================== texts

/-- What may stand between two steps, if anything does. -/
inductive Gap : List Char → Prop
  | comma {a b : List Char} (before : Blanks a) (after : Blanks b) : Gap (a ++ ',' :: b)
  | blanks {a : List Char} (blanks : Blanks a) : Gap a

/-- Steps before a text, each after a gap and each ending where it goes on. -/
inductive Lined (after : List Char) : List Step → List Char → Prop
  | nil : Lined after [] []
  | cons {s : Step} {rest : List Step} {gap cs : List Char} (apart : Gap gap)
      (ends : s.Ends (cs ++ after)) (lined : Lined after rest cs) :
      Lined after (s :: rest) (gap ++ (s.chars ++ cs))

/-- A count, or weights in brackets of which each ends where the next one begins. -/
inductive Division.Laid : Division → List Char → Prop
  | count (digits : List Char) : Laid (.count digits) digits
  | weights {first : Step} {others : List Step} {a cs b : List Char} (opened : Blanks a)
      (ends : first.Ends (cs ++ (b ++ [']']))) (lined : Lined (b ++ [']']) others cs)
      (closed : Blanks b) :
      Laid (.weights first others) ('[' :: (a ++ (first.chars ++ (cs ++ (b ++ [']'])))))

/-- A division that is laid out, perhaps with a colon and a span. -/
inductive Group.Laid : Group → List Char → Prop
  | plain {division : Division} {cs : List Char} (laid : division.Laid cs) :
      Laid ⟨division, none⟩ cs
  | spanned {division : Division} {cs a b : List Char} (laid : division.Laid cs)
      (before : Blanks a) (after : Blanks b) (n : Numeral) :
      Laid ⟨division, some n⟩ (cs ++ (a ++ ':' :: (b ++ n.chars)))

/-- Groups, each after a bar, and blanks at the end. -/
inductive Barred : List Group → List Char → Prop
  | nil {b : List Char} (closed : Blanks b) : Barred [] b
  | cons {g : Group} {rest : List Group} {a b cs more : List Char} (before : Blanks a)
      (after : Blanks b) (laid : g.Laid cs) (barred : Barred rest more) :
      Barred (g :: rest) (a ++ '|' :: (b ++ (cs ++ more)))

/-- A pattern that is laid out: the blanks at its end count as its last group's. -/
inductive Pattern.Laid : Pattern → List Char → Prop
  | groups {first : Group} {others : List Group} {a cs more : List Char} (opened : Blanks a)
      (laid : first.Laid cs) (barred : Barred others more) :
      Laid ⟨first, others⟩ (a ++ (cs ++ more))

/-- A gap is put together from blanks, perhaps a comma, and blanks. -/
theorem Gap.of_parts {a separator b : List Char} (before : Blanks a)
    (comma : separator = [] ∨ separator = [',']) (after : Blanks b) :
    Gap (a ++ (separator ++ b)) := by
  rcases comma with rfl | rfl
  · exact .blanks fun c hc => (List.mem_append.mp hc).elim (before c) (after c)
  · exact .comma before after

/-- A gap that is there fixes how the text behind a step begins. -/
theorem Gap.firm {gap : List Char} (h : Gap gap) (some : gap ≠ []) : Firm gap := by
  have blank {c : Char} {cs : List Char} (h : isBlank c = true) : Firm (c :: cs) := by
    rcases isBlank_iff.mp h with rfl | rfl
    · exact firm_cons (by decide) (by decide) cs
    · exact firm_cons (by decide) (by decide) cs
  cases h with
  | @comma a b before behind =>
      cases a with
      | nil => exact firm_cons (by decide) (by decide) b
      | cons c a => exact blank (before c List.mem_cons_self)
  | blanks blanks =>
      cases gap with
      | nil => exact absurd rfl some
      | cons c gap => exact blank (blanks c List.mem_cons_self)

/-- A gap with a step begun behind it begins alike if the step does. -/
theorem Gap.firm_append {gap q : List Char} (h : Gap gap) (begun : Firm q) : Firm (gap ++ q) := by
  cases gap with
  | nil => exact begun
  | cons c gap => exact (h.firm (List.cons_ne_nil c gap)).append q

/-- Steps in a line stand there before every text that begins alike. -/
theorem Lined.alike {steps : List Step} (h : Lined cs steps after)
    (wf : ∀ s ∈ steps, s.WellFormed) (same : Alike cs ds) :
    Lined ds steps after ∧ Alike (after ++ cs) (after ++ ds) := by
  induction h with
  | nil => exact ⟨.nil, same⟩
  | @cons s rest gap more apart ends lined ih =>
      obtain ⟨lined', same'⟩ := ih fun t ht => wf t (List.mem_cons_of_mem _ ht)
      refine ⟨.cons apart (ends.alike same') lined', ?_⟩
      rw [← List.append_assoc gap]
      exact ((apart.firm_append (wf s List.mem_cons_self).firm).append more) _ _

/-- The bracket ends a list whatever comes behind it. -/
theorem alike_closed {b : List Char} (closed : Blanks b) (more more' : List Char) :
    Alike (b ++ ']' :: more) (b ++ ']' :: more') := by
  cases b with
  | nil => exact .closed (followed_cons List.mem_cons_self)
  | cons c b => exact Gap.firm (.blanks closed) (List.cons_ne_nil c b) _ _

/-- Further blanks may stand in front of the bar. -/
theorem Barred.blanks_append {groups : List Group} {b : List Char} (h : Barred groups cs)
    (blanks : Blanks b) : Barred groups (b ++ cs) := by
  have both {a : List Char} (more : Blanks a) : Blanks (b ++ a) := fun c hc =>
    (List.mem_append.mp hc).elim (blanks c) (more c)
  cases h with
  | nil closed => exact .nil (both closed)
  | cons before behind laid barred =>
      rw [← List.append_assoc]
      exact .cons (both before) behind laid barred

/-- Further blanks may stand at the end. -/
theorem Barred.append_blanks {groups : List Group} {b : List Char} (h : Barred groups cs)
    (blanks : Blanks b) : Barred groups (cs ++ b) := by
  induction h with
  | nil closed => exact .nil fun c hc => (List.mem_append.mp hc).elim (closed c) (blanks c)
  | cons before behind laid barred ih =>
      simp only [List.append_assoc, List.cons_append]
      exact .cons before behind laid ih

-- ================================================== written is laid out

/-- What separates steps is a gap. -/
theorem Separates.gap {gap : List Char} (h : Separates gap) : Gap gap := by
  cases h with
  | comma before behind => exact .comma before behind
  | blank blanks => exact .blanks blanks

/-- What separates a step from the next one may follow a step. -/
theorem Separates.followed {gap : List Char} (h : Separates gap) (cs : List Char) :
    Followed stepEnds (gap ++ cs) := by
  cases h with
  | comma before =>
      rw [List.append_assoc]
      exact before.followed (by decide) (by decide) (followed_cons (by decide))
  | blank blanks some =>
      cases gap with
      | nil => exact absurd rfl some
      | cons c gap =>
          rcases isBlank_iff.mp (blanks c List.mem_cons_self) with rfl | rfl
          · exact followed_cons (by decide)
          · exact followed_cons (by decide)

/-- Steps that are listed end where a step may end. -/
theorem Listed.followed {others : List Step} (listed : Listed others cs)
    (ends : Followed stepEnds after) : Followed stepEnds (cs ++ after) := by
  cases listed with
  | nil => exact ends
  | cons separates =>
      rw [List.append_assoc]
      exact Separates.followed separates _

/-- Steps that are listed end each in front of the next one. -/
theorem Listed.lined {others : List Step} (listed : Listed others cs)
    (ends : Followed stepEnds after) : Lined after others cs := by
  induction listed with
  | nil => exact .nil
  | @cons s rest gap cs separates listed ih =>
      exact .cons separates.gap (s.ends_of_followed (Listed.followed listed ends)) ih

/-- What is written is laid out. -/
theorem Division.Written.laid {d : Division} (written : d.Written cs) : d.Laid cs := by
  cases written with
  | count => exact .count _
  | @weights first others a cs b opened listed closed =>
      have ends : Followed stepEnds (b ++ [']']) :=
        closed.followed (by decide) (by decide) (followed_cons (by decide))
      exact .weights opened (first.ends_of_followed (Listed.followed listed ends))
        (Listed.lined listed ends) closed

theorem Group.Written.laid {g : Group} (written : g.Written cs) : g.Laid cs := by
  cases written with
  | plain written => exact .plain written.laid
  | spanned written before behind n => exact .spanned written.laid before behind n

theorem Joined.barred {groups : List Group} {b : List Char} (joined : Joined groups cs)
    (closed : Blanks b) : Barred groups (cs ++ b) := by
  induction joined with
  | nil => exact .nil closed
  | cons before behind written _ ih =>
      simp only [List.append_assoc, List.cons_append]
      exact .cons before behind written.laid ih

/-- Every way to write a pattern lays it out. -/
theorem Pattern.Written.laid {p : Pattern} (written : p.Written cs) : p.Laid cs := by
  cases written with
  | groups opened written joined closed =>
      exact .groups opened written.laid (Joined.barred joined closed)

-- =============================================================== heads

/-- A group begins with a digit or a bracket. -/
theorem Group.Laid.stops {p : Char → Bool} {g : Group} (laid : g.Laid cs) (h : g.WellFormed)
    (digit : ∀ c : Char, c.isDigit = true → p c = false) (bracket : p '[' = false)
    (rest : List Char) : Stops p (cs ++ rest) := by
  have division : ∀ {d : Division} {cs : List Char}, d.Laid cs → d.WellFormed →
      ∀ rest, Stops p (cs ++ rest) := by
    intro d cs laid h rest
    cases laid with
    | count digits => exact Digits.stops h.2 h.1 digit rest
    | weights => exact stops_cons bracket
  cases laid with
  | plain laid => exact division laid h.1 rest
  | spanned laid =>
      rw [List.append_assoc]
      exact division laid h.1 _

end Metrograph.Rhythm
