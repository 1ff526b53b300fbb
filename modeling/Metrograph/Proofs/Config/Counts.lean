/-
Lists of counts as they are typed.

# Pieces

Of a text that lists counts neither the white space at its ends matters nor
brackets that open or close it. What is left is pieces between commas and
white space (`Listing`); every text has them in one way, so what is read can
be said of the pieces alone: the counts they spell, or why the first of them
that spells none does not (`read_counts_eq_ok_iff`, `read_counts_of_first`).

# Writing

However the numbers of a list are spaced out, they are the pieces of the text
(`listing_of_written`): a digit is no separator, and neither a digit nor a
separator is a bracket, so brackets around the text are dropped and nothing
else is. A list is shown with a comma between the numbers, which is one way
of spacing them out.
-/
import Metrograph.Config.Value
import Metrograph.Proofs.Decimal.Whole
import Metrograph.Proofs.Results
import Metrograph.Proofs.Text.Pieces
import Metrograph.Proofs.Text.Trimming

namespace Metrograph.Config

open Decimal (SpellsWhole limit32 readWholeChars readWholeChars_eq_ok_iff)
open Text (Spaced Strips Trims trimChars)

variable {text : String} {ps : List (List Char)} {piece : List Char} {ns : List UInt32} {n : UInt32}

-- ============================================================== pieces

/-- The pieces of a text between commas and white space, without white space at
its ends and without brackets that open or close it. -/
def Listing (text : String) (ps : List (List Char)) : Prop :=
  ∃ word inner, Trims word text.toList ∧ Strips (· == '[') (· == ']') inner word
    ∧ Spaced isSeparator ps inner

theorem listing_iff : Listing text ps ↔ countPieces (trimChars text.toList) = ps := by
  unfold Listing
  simp only [Text.trims_iff, Text.strips_iff, Text.spaced_iff, exists_and_left, exists_eq_left']
  rfl

/-- Every text lists some pieces, and no others. -/
theorem existsUnique_listing (text : String) : ∃! ps, Listing text ps := by
  simp only [listing_iff]
  exact existsUnique_eq'

/-- A decimal number of 32 bits, with or without a plus sign. -/
def IsCount (piece : List Char) : Prop := ∃ n ≤ 4294967295, SpellsWhole piece n

/-- A count is what spells a number of 32 bits. -/
theorem isCount_iff : IsCount piece ↔ ∃ n : UInt32, SpellsWhole piece n.toNat := by
  constructor
  · rintro ⟨n, bound, spelled⟩
    refine ⟨UInt32.ofNat n, ?_⟩
    rwa [UInt32.toNat_ofNat_of_lt' (Nat.lt_succ_of_le bound)]
  · rintro ⟨n, spelled⟩
    exact ⟨n.toNat, Nat.le_of_lt_succ n.toNat_lt, spelled⟩

/-- A piece is read as the number it spells. -/
theorem readPiece_eq_ok_iff : readPiece piece = .ok n ↔ SpellsWhole piece n.toNat := by
  have bound : n.toNat ≤ limit32 := Nat.le_of_lt_succ n.toNat_lt
  have spells_iff : SpellsWhole piece n.toNat ↔ readWholeChars limit32 piece = .ok n.toNat := by
    rw [readWholeChars_eq_ok_iff, and_iff_left bound]
  rw [spells_iff]
  unfold readPiece
  cases read : readWholeChars limit32 piece with
  | error cause => exact ⟨nofun, nofun⟩
  | ok m =>
      have small : m < UInt32.size := Nat.lt_succ_of_le (readWholeChars_eq_ok_iff.mp read).2
      constructor
      · intro same
        rw [← Except.ok.inj same, UInt32.toNat_ofNat_of_lt' small]
      · intro same
        dsimp only
        rw [Except.ok.inj same, UInt32.ofNat_toNat]

theorem isCount_iff_read : IsCount piece ↔ ∃ n, readPiece piece = .ok n := by
  simp only [isCount_iff, readPiece_eq_ok_iff]

instance : DecidablePred IsCount := fun piece =>
  decidable_of_iff ((readPiece piece).toOption.isSome = true) <| by
    rw [isCount_iff_read]
    cases readPiece piece with
    | ok n => exact ⟨fun _ => ⟨n, rfl⟩, fun _ => rfl⟩
    | error fault => exact ⟨nofun, nofun⟩

/-- A piece that is no count is quoted. -/
theorem readPiece_of_not_isCount (other : ¬ IsCount piece) :
    ∃ cause, readPiece piece = .error (.counts (String.ofList piece) cause) := by
  rw [isCount_iff_read] at other
  unfold readPiece at other ⊢
  cases read : readWholeChars limit32 piece with
  | error cause => exact ⟨cause, rfl⟩
  | ok m =>
      rw [read] at other
      exact absurd ⟨_, rfl⟩ other

-- ============================================================= reading

/-- A text is read by its pieces. -/
theorem read_counts (listing : Listing text ps) :
    Value.read .counts text = (ps.mapM readPiece).map fun ns => ⟨.counts, ns⟩ := by
  have trimmed : (Text.trim text).toList = trimChars text.toList := String.toList_ofList
  unfold Value.read
  dsimp only
  rw [trimmed, listing_iff.mp listing]
  cases ps.mapM readPiece with
  | ok ns => rfl
  | error fault => rfl

/-- A text is read as the numbers that its pieces spell, one each. -/
theorem read_counts_eq_ok_iff (listing : Listing text ps) :
    Value.read .counts text = .ok ⟨.counts, ns⟩
      ↔ List.Forall₂ (fun piece n => SpellsWhole piece n.toNat) ps ns := by
  simp only [← readPiece_eq_ok_iff]
  rw [read_counts listing]
  constructor
  · intro read
    cases each : ps.mapM readPiece with
    | error fault =>
        rw [each] at read
        cases read
    | ok ms =>
        rw [each] at read
        cases read
        exact mapM_eq_pure_iff.mp each
  · intro each
    rw [mapM_eq_pure_iff.mpr each]
    rfl

/-- The first piece that is no count is what the text is refused for. -/
theorem read_counts_of_first {before after : List (List Char)}
    (listing : Listing text (before ++ piece :: after)) (counts : ∀ other ∈ before, IsCount other)
    (other : ¬ IsCount piece) :
    ∃ cause, Value.read .counts text = .error (.counts (String.ofList piece) cause) := by
  have fine : ∀ other ∈ before, ∃ n, readPiece other = .ok n := fun other member =>
    isCount_iff_read.mp (counts other member)
  obtain ⟨cause, fails⟩ := readPiece_of_not_isCount other
  refine ⟨cause, ?_⟩
  rw [read_counts listing, mapM_of_first fine fails after]
  rfl

/-- Pieces that are all counts spell numbers. -/
theorem exists_forall₂_of_isCount (counts : ∀ piece ∈ ps, IsCount piece) :
    ∃ ns : List UInt32, List.Forall₂ (fun piece n => SpellsWhole piece n.toNat) ps ns := by
  induction ps with
  | nil => exact ⟨[], .nil⟩
  | cons piece ps ih =>
      obtain ⟨n, spelled⟩ := isCount_iff.mp (counts piece List.mem_cons_self)
      obtain ⟨ns, later⟩ := ih fun other member => counts other (List.mem_cons_of_mem piece member)
      exact ⟨n :: ns, .cons spelled later⟩

/-- A text is accepted exactly if all its pieces are counts. -/
theorem exists_read_counts_iff (listing : Listing text ps) :
    (∃ v, Value.read .counts text = .ok v) ↔ ∀ piece ∈ ps, IsCount piece := by
  constructor
  · rintro ⟨v, read⟩ piece member
    rw [read_counts listing] at read
    cases each : ps.mapM readPiece with
    | error fault =>
        rw [each] at read
        cases read
    | ok ns =>
        obtain ⟨n, -, spelled⟩ := exists_of_mem_left (mapM_eq_pure_iff.mp each) member
        exact isCount_iff_read.mpr ⟨n, spelled⟩
  · intro counts
    obtain ⟨ns, each⟩ := exists_forall₂_of_isCount counts
    exact ⟨_, (read_counts_eq_ok_iff listing).mpr each⟩

/-- A text is refused exactly if some piece of it is no count. -/
theorem refused_counts_iff (listing : Listing text ps) :
    (∃ fault, Value.read .counts text = .error fault) ↔ ∃ piece ∈ ps, ¬ IsCount piece := by
  have taken := exists_read_counts_iff listing
  have some_not : (∃ piece ∈ ps, ¬ IsCount piece) ↔ ¬ ∃ v, Value.read .counts text = .ok v := by
    simp only [taken, not_forall, exists_prop]
  rw [some_not]
  cases Value.read .counts text with
  | ok v => exact ⟨nofun, fun none => absurd ⟨v, rfl⟩ none⟩
  | error fault => exact ⟨fun _ => nofun, fun _ => ⟨fault, rfl⟩⟩

-- ============================================================= writing

/-- The digits of a count. -/
def countChars (n : UInt32) : List Char := (toString n.toNat).toList

/-- The ways of writing a list of counts: their digits, with commas and white
space between them and perhaps at the ends, and brackets around all that or
none, with white space outside of them. -/
inductive WritesCounts (ns : List UInt32) : List Char → Prop
  | bare {inner : List Char} (spaced : Spaced isSeparator (ns.map countChars) inner) :
      WritesCounts ns inner
  | bracketed {front inner back : List Char} (before : ∀ c ∈ front, Text.isBlank c = true)
      (spaced : Spaced isSeparator (ns.map countChars) inner)
      (behind : ∀ c ∈ back, Text.isBlank c = true) :
      WritesCounts ns (front ++ ('[' :: (inner ++ (']' :: back))))

theorem isSeparator_of_isBlank {c : Char} (white : Text.isBlank c = true) :
    isSeparator c = true := by
  unfold isSeparator
  rw [white, Bool.or_true]

theorem countChars_eq (n : UInt32) : countChars n = Nat.toDigits 10 n.toNat := Nat.toList_repr

/-- A count is written in digits. -/
theorem digits_countChars (n : UInt32) : Text.Digits (countChars n) :=
  countChars_eq n ▸ Decimal.digits_toDigits n.toNat

/-- No digit separates counts. -/
theorem isSeparator_of_isDigit {c : Char} (digit : c.isDigit = true) : isSeparator c = false := by
  have range : 48 ≤ c.toNat ∧ c.toNat ≤ 57 := Char.isDigit_iff_toNat.mp digit
  have comma : c ≠ ',' := Text.ne_of_kind digit rfl
  have white : Text.isBlank c = false := by
    unfold Text.isBlank
    simp only [Bool.or_eq_false_iff, decide_eq_false_iff_not, beq_eq_false_iff_ne]
    omega
  unfold isSeparator
  rw [white, Bool.or_false, beq_eq_false_iff_ne.mpr comma]

/-- The digits of a count are a piece. -/
theorem countChars_piece (ns : List UInt32) :
    ∀ piece ∈ ns.map countChars, piece ≠ [] ∧ ∀ c ∈ piece, isSeparator c = false := by
  intro piece member
  obtain ⟨n, -, rfl⟩ := List.mem_map.mp member
  refine ⟨?_, fun c hc => isSeparator_of_isDigit (digits_countChars n c hc)⟩
  rw [countChars_eq]
  exact Nat.toDigits_ne_nil

/-- Among counts there is nothing but digits and separators. -/
theorem not_among_counts {inner : List Char} {m : Char}
    (spaced : Spaced isSeparator (ns.map countChars) inner) (other : isSeparator m = false)
    (letter : m.isDigit = false) : ∀ c ∈ inner, (c == m) = false := by
  rintro c hc
  rw [beq_eq_false_iff_ne]
  rintro rfl
  rcases spaced.mem hc with separator | ⟨piece, member, inside⟩
  · rw [other] at separator
    cases separator
  · obtain ⟨n, -, rfl⟩ := List.mem_map.mp member
    rw [digits_countChars n c inside] at letter
    cases letter

/-- Brackets around counts are dropped, and nothing else is. -/
theorem strips_counts {inner : List Char}
    (spaced : Spaced isSeparator (ns.map countChars) inner) :
    Strips (· == '[') (· == ']') inner inner
      ∧ Strips (· == '[') (· == ']') inner ('[' :: (inner ++ [']'])) := by
  have opening := not_among_counts (m := '[') spaced (by decide) (by decide)
  have closing := not_among_counts (m := ']') spaced (by decide) (by decide)
  have bare : Strips (· == '[') (· == ']') inner inner :=
    Text.strips_self fun c hc => ⟨opening c hc, closing c hc⟩
  refine ⟨bare, ⟨['['], [']'], ?_, ?_, rfl⟩, bare.first, bare.last⟩
  · exact fun c hc => beq_iff_eq.mpr (List.mem_singleton.mp hc)
  · exact fun c hc => beq_iff_eq.mpr (List.mem_singleton.mp hc)

/-- The numbers of a list are the pieces of every text that it is written as. -/
theorem listing_of_written (written : WritesCounts ns text.toList) :
    Listing text (ns.map countChars) := by
  generalize chars : text.toList = cs at written
  unfold Listing
  rw [chars]
  cases written with
  | bare spaced =>
      -- trimming leaves a text with the same pieces
      have trims : Trims (trimChars cs) cs := Text.trims_iff.mpr rfl
      obtain ⟨front, back, before, behind, whole⟩ := trims.surrounded
      obtain ⟨ps, kept⟩ := Text.exists_spaced isSeparator (trimChars cs)
      have again : Spaced isSeparator ps cs := by
        rw [whole]
        exact (kept.append fun c hc => isSeparator_of_isBlank (behind c hc)).widen
          fun c hc => isSeparator_of_isBlank (before c hc)
      rw [← again.pieces_eq, spaced.pieces_eq] at kept
      exact ⟨_, _, trims, (strips_counts kept).1, kept⟩
  | @bracketed front inner back before spaced behind =>
      refine ⟨'[' :: (inner ++ [']']), inner, ⟨⟨front, back, before, behind, ?_⟩, ?_, ?_⟩,
        (strips_counts spaced).2, spaced⟩
      · rw [List.cons_append, List.append_assoc, List.singleton_append]
      · rintro c ⟨⟩
        decide
      · intro c hc
        rw [← List.cons_append, List.getLast?_concat] at hc
        cases hc
        decide

/-- Counts are displayed with commas between them. -/
theorem text_counts (ns : List UInt32) :
    (Value.text ⟨.counts, ns⟩).toList = [','].intercalate (ns.map countChars) := by
  show (",".intercalate (ns.map fun n => toString n.toNat)).toList = _
  rw [String.toList_intercalate, List.map_map]
  rfl

/-- A list is shown in one of the ways in which it can be written. -/
theorem writesCounts_text (ns : List UInt32) :
    WritesCounts ns (Value.text ⟨.counts, ns⟩).toList := by
  rw [text_counts]
  exact .bare (Text.spaced_intercalate (by decide) (countChars_piece ns))

/-- However counts are written, they are read back. -/
theorem read_counts_of_written (written : WritesCounts ns text.toList) :
    Value.read .counts text = .ok ⟨.counts, ns⟩ := by
  rw [read_counts_eq_ok_iff (listing_of_written written), List.forall₂_map_left_iff,
    List.forall₂_same]
  intro n _
  rw [countChars_eq]
  exact Decimal.spellsWhole_toDigits n.toNat

-- ============================================================ the texts

/-- A list of counts is read from the text that shows it, and from every text
that it can be written as. Any text is read by the pieces that it has, as the
numbers they spell; it is refused exactly if one of them is no count, and the
message quotes the first one that is none. -/
theorem counts_text_exact :
    (∀ ns : List UInt32,
      Value.read .counts (Value.text ⟨.counts, ns⟩) = .ok ⟨.counts, ns⟩)
    ∧ (∀ (ns : List UInt32) (text : String), WritesCounts ns text.toList →
      Value.read .counts text = .ok ⟨.counts, ns⟩)
    ∧ (∀ text : String, ∃! ps, Listing text ps)
    ∧ ∀ (text : String) (ps : List (List Char)), Listing text ps →
      (∀ ns : List UInt32, Value.read .counts text = .ok ⟨.counts, ns⟩
        ↔ List.Forall₂ (fun piece n => SpellsWhole piece n.toNat) ps ns)
      ∧ ((∃ fault, Value.read .counts text = .error fault) ↔ ∃ piece ∈ ps, ¬ IsCount piece)
      ∧ ∀ (before : List (List Char)) (piece : List Char) (after : List (List Char)),
        ps = before ++ piece :: after → (∀ other ∈ before, IsCount other) → ¬ IsCount piece →
        ∃ cause, Value.read .counts text = .error (.counts (String.ofList piece) cause)
          ∧ (TextFault.counts (String.ofList piece) cause).message
            = "'" ++ String.ofList piece ++ "': " ++ cause.message := by
  refine ⟨fun ns => read_counts_of_written (writesCounts_text ns),
    fun ns text => read_counts_of_written, existsUnique_listing, fun text ps listing =>
      ⟨fun _ => read_counts_eq_ok_iff listing, refused_counts_iff listing, ?_⟩⟩
  rintro before piece after rfl counts other
  obtain ⟨cause, refused⟩ := read_counts_of_first listing counts other
  exact ⟨cause, refused, rfl⟩

/-- The largest count in brackets between wide and narrow white space, and one
more than that behind a number with a plus sign and a zero in front. -/
theorem counts_text_exact_largest :
    Value.read .counts "\u3000[,3\t2, ,4294967295 ]\n" = .ok ⟨.counts, [3, 2, 4294967295]⟩
      ∧ ∃ cause, Value.read .counts "[+07,4294967296 x" = .error (.counts "4294967296" cause) := by
  obtain ⟨-, written, -, refused⟩ := counts_text_exact
  have spaced : Spaced isSeparator ([3, 2, 4294967295].map countChars)
      ",3\t2, ,4294967295 ".toList := Text.spaced_iff.mpr (by decide +kernel)
  have whole : "\u3000[,3\t2, ,4294967295 ]\n".toList
      = ['\u3000'] ++ ('[' :: (",3\t2, ,4294967295 ".toList ++ (']' :: ['\n']))) := by
    decide +kernel
  have writes : WritesCounts [3, 2, 4294967295] "\u3000[,3\t2, ,4294967295 ]\n".toList := by
    rw [whole]
    exact .bracketed (List.forall_mem_singleton.mpr rfl) spaced (List.forall_mem_singleton.mpr rfl)
  have listing : Listing "[+07,4294967296 x"
      (["+07".toList] ++ "4294967296".toList :: ["x".toList]) := listing_iff.mpr (by decide +kernel)
  obtain ⟨cause, quoted, -⟩ :=
    (refused _ _ listing).2.2 _ _ _ rfl (by decide +kernel) (by decide +kernel)
  exact ⟨written _ _ writes, cause, quoted⟩

end Metrograph.Config
