/-
A number as the notation of rhythms spells it is read as the number
nearest to it.

The reader of decimal numbers looks at the first digit other than zero
before it computes anything: numbers that are far too small or far too
large are not computed at all. They are zero and infinity because that is
what they would be rounded to (`hasValue_nearest`). The words for numbers
without digits begin with letters, so no spelling of a number is mistaken
for one of them (`readMagnitude_chars`).
-/
import Metrograph.Proofs.Decimal.Whole
import Metrograph.Proofs.Rhythm.Spelling
import Metrograph.Proofs.Scalar.Decimal

namespace Metrograph.Decimal

open Binary64 (HasValue nearest_zero nearest_div_eq_zero nearest_of_limit_le hasValue_zero
  hasValue_infinity hasValue_ofNat hasValue_ofDecimal exact_ofDecimal worth_infinity_positive limit)
open Rhythm (Numeral)

variable {cs : List Char}

-- ============================================================= nearest

theorem hasValue_zero_literal : HasValue 0 0 := hasValue_zero

/-- An overflow is an infinity, which has the end of the range as its value. -/
theorem hasValue_overflow : HasValue (1 / 0) limit := by
  have infinite : (1 / 0 : Float) = .ofModel (.pack (.infinity .positive)) := by decide +kernel
  rw [infinite, ← worth_infinity_positive]
  exact hasValue_infinity .positive

section

variable {ds : List Char} {places : ℕ}

/-- The powers of two at both ends of the range lie within 400 powers of ten. -/
theorem two_pow_le_ten_pow : (2 : ℚ) ^ 1076 ≤ 10 ^ 400 := by
  calc (2 : ℚ) ^ 1076 ≤ 2 ^ (11 * 100) := pow_le_pow_right₀ one_le_two (by norm_num)
    _ = (2 ^ 11) ^ 100 := pow_mul _ _ _
    _ ≤ (10 ^ 4) ^ 100 := pow_le_pow_left₀ (by norm_num) (by norm_num) 100
    _ = 10 ^ 400 := (pow_mul _ _ _).symm

/-- A number of a size far below the range is rounded to zero. -/
theorem nearest_of_small (digits : Text.Digits ds) (small : ds.length + 400 < places) :
    Binary64.nearest (natOfDigits ds / 10 ^ places) = 0 := by
  have below : (natOfDigits ds : ℚ) ≤ 10 ^ ds.length := by exact_mod_cast (natOfDigits_lt digits).le
  refine nearest_div_eq_zero (Nat.cast_nonneg _) (pow_pos (by norm_num) places) ?_
  calc (natOfDigits ds : ℚ) * 2 ^ 1076
      ≤ 10 ^ ds.length * 10 ^ 400 :=
        mul_le_mul below two_pow_le_ten_pow (pow_pos two_pos _).le (pow_pos (by norm_num) _).le
    _ = 10 ^ (ds.length + 400) := (pow_add _ _ _).symm
    _ ≤ 10 ^ places := pow_le_pow_right₀ (by norm_num) small.le

/-- A number of a size far above the range is rounded to infinity. -/
theorem nearest_of_large {c : Char} (digit : c.isDigit = true) (lead : c ≠ '0')
    (large : 400 + places < (c :: ds).length) :
    Binary64.nearest (natOfDigits (c :: ds) / 10 ^ places) = limit := by
  have above : (10 : ℚ) ^ ds.length ≤ natOfDigits (c :: ds) := by
    exact_mod_cast le_natOfDigits digit lead ds
  have power : (10 : ℚ) ^ (400 + places) ≤ 10 ^ ds.length :=
    pow_le_pow_right₀ (by norm_num) (Nat.le_of_lt_succ large)
  have range : limit ≤ 2 ^ 1076 := by
    unfold limit
    rw [← zpow_natCast]
    exact zpow_le_zpow_right₀ one_le_two (by decide)
  refine nearest_of_limit_le (range.trans (two_pow_le_ten_pow.trans ?_))
  rw [le_div_iff₀ (pow_pos (by norm_num) places), ← pow_add]
  exact power.trans above

end

/-- What some digits spell, a few of them after the point, is read as the
number nearest to it. -/
theorem hasValue_nearest {digits : List Char} (h : Text.Digits digits) (places : ℕ) :
    HasValue (nearest digits (-(places : ℤ)))
      (Binary64.nearest (natOfDigits digits / 10 ^ places)) := by
  have held : Text.Digits (digits.dropWhile (· = '0')) := fun c hc =>
    h c ((List.dropWhile_sublist _).subset hc)
  have lead := List.head?_dropWhile_not (· = '0') digits
  rw [← natOfDigits_dropWhile]
  unfold nearest
  dsimp only
  generalize digits.dropWhile (· = '0') = ds at held lead ⊢
  cases ds with
  | nil =>
      have zero : natOfDigits [] = 0 := rfl
      rw [if_pos (Or.inl rfl), zero, Nat.cast_zero, zero_div, nearest_zero]
      exact hasValue_zero_literal
  | cons c ds =>
      have other : c ≠ '0' := of_decide_eq_false lead
      by_cases small : (c :: ds).length + 400 < places
      · rw [if_pos (Or.inr (by omega)), nearest_of_small held small]
        exact hasValue_zero_literal
      rw [if_neg (by rintro (none | far); exacts [List.cons_ne_nil _ _ none, by omega])]
      by_cases large : 400 + places < (c :: ds).length
      · rw [if_pos (by omega), nearest_of_large (held c List.mem_cons_self) other large]
        exact hasValue_overflow
      rw [if_neg (by omega)]
      by_cases whole : places = 0
      · subst whole
        rw [pow_zero, div_one]
        exact hasValue_ofNat _
      · have below : decide (-(places : ℤ) < 0) = true := decide_eq_true (by omega)
        have size : (-(places : ℤ)).natAbs = places := by omega
        rw [below, size, ← exact_ofDecimal]
        exact hasValue_ofDecimal _ _

-- ============================================================= spelled

variable {n : Numeral}

/-- The digits of a number are found on both sides of its point. -/
theorem readUnsigned_chars (wf : n.WellFormed) :
    readUnsigned n.chars = some (nearest (n.whole ++ n.fraction.getD [])
      (-((n.fraction.getD []).length : ℤ))) := by
  have before := wf.takeWhile_chars
  have behind := wf.dropWhile_chars
  obtain ⟨whole, fraction⟩ := n
  unfold readUnsigned
  rw [before, behind]
  cases fraction with
  | none =>
      have written : whole ++ [] ≠ [] := by
        rw [List.append_nil]
        exact wf.1
      exact if_neg written
  | some ds =>
      have written : whole ++ ds ≠ [] := by
        rw [Ne, List.append_eq_nil_iff, not_and_or]
        exact wf.2.2
      have taken : ds.takeWhile Char.isDigit = ds := List.takeWhile_eq_self_iff.mpr wf.2.1
      have left : ds.dropWhile Char.isDigit = [] := List.dropWhile_eq_nil_iff.mpr wf.2.1
      show (if whole ++ ds.takeWhile Char.isDigit = [] then none
        else (readExponent (ds.dropWhile Char.isDigit)).map fun exponent =>
          nearest (whole ++ ds.takeWhile Char.isDigit)
            (exponent - ((ds.takeWhile Char.isDigit).length : ℤ))) = _
      rw [taken, left, if_neg written]
      show some (nearest (whole ++ ds) (0 - (ds.length : ℤ))) = _
      rw [zero_sub]
      rfl

/-- A digit is no letter. -/
theorem toLower_of_isDigit {c : Char} (digit : c.isDigit = true) : c.toLower = c := by
  have last : c.toNat ≤ 57 := (Char.isDigit_iff_toNat.mp digit).2
  have upper : ¬ (c.val ≥ 'A'.val ∧ c.val ≤ 'Z'.val) := by
    rintro ⟨first, -⟩
    have : 65 ≤ c.toNat := first
    omega
  unfold Char.toLower
  rw [dif_neg upper]

/-- A number is none of the words for numbers without digits. -/
theorem readMagnitude_chars (wf : n.WellFormed) : readMagnitude n.chars = readUnsigned n.chars := by
  have front : ∀ c : Char, c.isDigit = true → (c.toLower == 'i' || c.toLower == 'n') = false := by
    intro c digit
    rw [toLower_of_isDigit digit, Text.isDigit_beq rfl digit, Text.isDigit_beq rfl digit]
    rfl
  have starts := wf.stops front rfl []
  rw [List.append_nil] at starts
  have other : ∀ word : String, word.toList.head?.any (fun c => c == 'i' || c == 'n') = true →
      String.ofList (n.chars.map Char.toLower) ≠ word := by
    rintro word letter rfl
    rw [String.toList_ofList, List.head?_map] at letter
    cases first : n.chars.head? with
    | none =>
        rw [first] at letter
        cases letter
    | some c =>
        have kind : (c.toLower == 'i' || c.toLower == 'n') = false := starts c first
        rw [first, Option.map_some, Option.any_some, kind] at letter
        cases letter
  have infinite := not_or.mpr ⟨other "inf" rfl, other "infinity" rfl⟩
  unfold readMagnitude
  dsimp only
  rw [if_neg infinite, if_neg (other "nan" rfl)]

/-- A numeral without its point is nothing but digits. -/
theorem digits_of_wellFormed (wf : n.WellFormed) :
    Text.Digits (n.whole ++ n.fraction.getD []) := by
  obtain ⟨whole, fraction⟩ := n
  intro c hc
  cases fraction with
  | none => exact wf.2 c (by rwa [Option.getD_none, List.append_nil] at hc)
  | some ds =>
      rcases List.mem_append.mp hc with before | after
      · exact wf.1 c before
      · exact wf.2.1 c after

/-- A literal that begins without a sign is its magnitude. -/
theorem readNumber_of_unsigned {text : String} {c : Char} {x : Float}
    (spelled : text.toList = c :: cs) (unsigned : (c == '-' || c == '+') = false)
    (read : readMagnitude (c :: cs) = some x) : readNumber text = .ok x := by
  have minus : ∀ rest, c :: cs ≠ '-' :: rest := by
    rintro rest ⟨⟩
    cases unsigned
  have plus : ∀ rest, c :: cs ≠ '+' :: rest := by
    rintro rest ⟨⟩
    cases unsigned
  unfold readNumber
  rw [spelled]
  dsimp only
  split
  next found =>
    split at found
    next sign => exact absurd sign (minus _)
    next sign => exact absurd sign (plus _)
    next => rw [Option.some.inj (found.symm.trans read)]
  next found =>
    split at found
    next sign => exact absurd sign (minus _)
    next sign => exact absurd sign (plus _)
    next => cases found.symm.trans read

/-- A number as the notation of rhythms spells it is a literal, and is read as
the number nearest to what it spells. -/
theorem readNumber_text (wf : n.WellFormed) :
    ∃ x, readNumber n.text = .ok x ∧ HasValue x (Binary64.nearest n.value) := by
  refine ⟨nearest (n.whole ++ n.fraction.getD []) (-((n.fraction.getD []).length : ℤ)), ?_, ?_⟩
  · have unsigned : ∀ c : Char, c.isDigit = true → (c == '-' || c == '+') = false := by
      intro c digit
      rw [Text.isDigit_beq rfl digit, Text.isDigit_beq rfl digit]
      rfl
    have starts := wf.stops unsigned rfl []
    have read := (readMagnitude_chars wf).trans (readUnsigned_chars wf)
    have text : n.text.toList = n.chars := String.toList_ofList
    rw [List.append_nil] at starts
    cases chars : n.chars with
    | nil => exact absurd chars wf.chars_ne_nil
    | cons c cs =>
        rw [chars] at text starts read
        exact readNumber_of_unsigned text (starts c rfl) read
  · have held := hasValue_nearest (digits_of_wellFormed wf) (n.fraction.getD []).length
    rw [← exact_ofDecimal] at held
    exact held

end Metrograph.Decimal
