/-
What is left of a text once characters are dropped at its ends.

At either end as many characters of a kind are dropped as there are, so what
is left does not begin or end with one more of them. That alone says what it
is (`strips_iff`), even where one kind is dropped in front and another one
behind: if nothing is left, whatever is not dropped in front is dropped from
behind.
-/
import Metrograph.Proofs.Text.Runs
import Metrograph.Text.Character

namespace Metrograph.Text

variable {p q : Char → Bool} {cs word text : List Char}

-- ============================================================= one end

/-- What is not dropped stays. -/
theorem mem_dropWhile {c : Char} (member : c ∈ cs) (kept : p c = false) : c ∈ cs.dropWhile p := by
  rw [← List.takeWhile_append_dropWhile (p := p) (l := cs), List.mem_append] at member
  refine member.resolve_left fun taken => ?_
  rw [List.mem_takeWhile_imp taken] at kept
  cases kept

/-- What is dropped at the end is a run there. -/
theorem dropEndWhile_append (p : Char → Bool) (cs : List Char) :
    dropEndWhile p cs ++ (cs.reverse.takeWhile p).reverse = cs := by
  unfold dropEndWhile
  rw [← List.reverse_append, List.takeWhile_append_dropWhile, List.reverse_reverse]

/-- Dropping from the end leaves the beginning, unless it leaves nothing. -/
theorem head?_dropEndWhile {c : Char} (h : c ∈ (dropEndWhile p cs).head?) : c ∈ cs.head? := by
  have whole := dropEndWhile_append p cs
  rw [← whole, List.head?_append, Option.mem_def.mp h]
  rfl

-- ============================================================ both ends

/-- A word is what is left of a text without characters of one kind in front and
of another kind behind. -/
structure Strips (p q : Char → Bool) (word text : List Char) : Prop where
  surrounded : ∃ front back, (∀ c ∈ front, p c = true) ∧ (∀ c ∈ back, q c = true)
    ∧ text = front ++ (word ++ back)
  first : ∀ c ∈ word.head?, p c = false
  last : ∀ c ∈ word.getLast?, q c = false

/-- Dropping at both ends leaves such a word. -/
theorem strips_drop (p q : Char → Bool) (text : List Char) :
    Strips p q (dropEndWhile q (text.dropWhile p)) text where
  surrounded := by
    refine ⟨text.takeWhile p, ((text.dropWhile p).reverse.takeWhile q).reverse,
      List.all_eq_true.mp List.all_takeWhile, fun c hc => ?_, ?_⟩
    · exact List.all_eq_true.mp List.all_takeWhile c (List.mem_reverse.mp hc)
    · rw [dropEndWhile_append, List.takeWhile_append_dropWhile]
  first c hc := stops_dropWhile p text c (head?_dropEndWhile hc)
  last c hc := by
    unfold dropEndWhile at hc
    rw [List.getLast?_reverse] at hc
    exact stops_dropWhile q _ c hc

/-- Dropping characters at both ends finds the one word that is left. -/
theorem strips_iff : Strips p q word text ↔ dropEndWhile q (text.dropWhile p) = word := by
  constructor
  · rintro ⟨⟨front, back, before, behind, rfl⟩, first, last⟩
    unfold dropEndWhile
    rw [List.dropWhile_append_of_pos before]
    cases word with
    | nil =>
        have dropped : ∀ c ∈ (back.dropWhile p).reverse, q c = true := fun c hc =>
          behind c ((List.dropWhile_sublist p).subset (List.mem_reverse.mp hc))
        rw [List.nil_append, List.dropWhile_eq_nil_iff.mpr dropped]
        rfl
    | cons c rest =>
        have begins : Stops p (c :: rest ++ back) := first
        have ends : Stops q (c :: rest).reverse := by
          unfold Stops
          rwa [List.head?_reverse]
        rw [begins.dropWhile_eq_self, List.reverse_append,
          ends.dropWhile fun d hd => behind d (List.mem_reverse.mp hd), List.reverse_reverse]
  · rintro rfl
    exact strips_drop p q text

/-- A text is left as it is if it has none of the characters that are dropped. -/
theorem strips_self (here : ∀ c ∈ text, p c = false ∧ q c = false) : Strips p q text text where
  surrounded := ⟨[], [], nofun, nofun, (List.append_nil text).symm⟩
  first c hc := (here c (List.mem_of_mem_head? hc)).1
  last c hc := (here c (List.mem_of_mem_getLast? hc)).2

-- =========================================================== white space

/-- A text is what is left when it is trimmed, with white space at its ends. -/
theorem exists_trimChars (cs : List Char) :
    ∃ a b, (∀ c ∈ a, isBlank c = true) ∧ (∀ c ∈ b, isBlank c = true)
      ∧ cs = a ++ (trimChars cs ++ b) :=
  (strips_drop isBlank isBlank cs).surrounded

theorem mem_trimChars {c : Char} (member : c ∈ cs) (kept : isBlank c = false) :
    c ∈ trimChars cs := by
  unfold trimChars dropEndWhile
  rw [List.mem_reverse]
  exact mem_dropWhile (List.mem_reverse.mpr (mem_dropWhile member kept)) kept

/-- A word is a text without the white space at its ends. -/
structure Trims (word text : List Char) : Prop where
  surrounded : ∃ front back, (∀ c ∈ front, isBlank c = true) ∧ (∀ c ∈ back, isBlank c = true)
    ∧ text = front ++ (word ++ back)
  first : ∀ c ∈ word.head?, isBlank c = false
  last : ∀ c ∈ word.getLast?, isBlank c = false

/-- Trimming a text finds the one word that is the text without the white space
at its ends. -/
theorem trims_iff : Trims word text ↔ trimChars text = word :=
  Iff.trans ⟨fun h => ⟨h.surrounded, h.first, h.last⟩, fun h => ⟨h.surrounded, h.first, h.last⟩⟩
    (strips_iff (p := isBlank) (q := isBlank))

end Metrograph.Text
