/-
Whole numbers as they are typed and as they are written.

A whole number is typed as digits, with a plus sign in front or without, and
zeros may lead. Digits are read from the left and what has been read only
grows, so a number is found to be too large at the digit where it passes its
bound, and no sooner than it is (`readDigits_eq_ok_iff`). Hence a text is
read exactly if it spells a number within the bound
(`readWholeChars_eq_ok_iff`), and what is written of a number is a text of
that kind.
-/
import Mathlib.Tactic.Ring
import Metrograph.Decimal.Literal
import Metrograph.Proofs.Text.Runs

namespace Metrograph.Decimal

-- ============================================================== digits

variable {cs : List Char}

/-- The first digit weighs as many tens as digits follow. -/
theorem natOfDigits_cons (c : Char) (cs : List Char) :
    natOfDigits (c :: cs) = digitValue c * 10 ^ cs.length + natOfDigits cs := by
  have front := @Nat.ofDigitChars_eq_ofDigitChars_zero cs (digitValue c)
  rw [Nat.ofDigitChars_eq_foldl, Nat.ofDigitChars_eq_foldl, mul_comm] at front
  have first : natOfDigits (c :: cs)
      = cs.foldl (fun n c => 10 * n + digitValue c) (digitValue c) := by
    show cs.foldl _ (10 * 0 + digitValue c) = _
    rw [mul_zero, zero_add]
  exact first.trans front

theorem digitValue_le {c : Char} (digit : c.isDigit = true) : digitValue c ≤ 9 := by
  have last : c.toNat ≤ 57 := (Char.isDigit_iff_toNat.mp digit).2
  unfold digitValue
  show c.toNat - 48 ≤ 9
  omega

/-- So many digits spell a number below that power of ten. -/
theorem natOfDigits_lt (digits : Text.Digits cs) : natOfDigits cs < 10 ^ cs.length := by
  induction cs with
  | nil => exact Nat.one_pos
  | cons c cs ih =>
      have first := digitValue_le (digits c List.mem_cons_self)
      have later := ih fun d hd => digits d (List.mem_cons_of_mem _ hd)
      have power := Nat.mul_le_mul_right (10 ^ cs.length) first
      rw [natOfDigits_cons, List.length_cons, pow_succ]
      omega

/-- Zeros in front do not count. -/
theorem natOfDigits_dropWhile (cs : List Char) :
    natOfDigits (cs.dropWhile (· = '0')) = natOfDigits cs := by
  induction cs with
  | nil => rfl
  | cons c cs ih =>
      by_cases zero : c = '0'
      · have none : digitValue '0' = 0 := rfl
        have dropped : (c :: cs).dropWhile (· = '0') = cs.dropWhile (· = '0') :=
          List.dropWhile_cons_of_pos (decide_eq_true zero)
        rw [dropped, ih, natOfDigits_cons, zero, none, zero_mul, zero_add]
      · have kept : (c :: cs).dropWhile (· = '0') = c :: cs :=
          List.dropWhile_cons_of_neg (by rwa [decide_eq_true_iff])
        rw [kept]

/-- Digits that begin with one other than zero. -/
theorem le_natOfDigits {c : Char} (digit : c.isDigit = true) (lead : c ≠ '0') (cs : List Char) :
    10 ^ cs.length ≤ natOfDigits (c :: cs) := by
  have value : 1 ≤ digitValue c := by
    have first : 48 ≤ c.toNat := (Char.isDigit_iff_toNat.mp digit).1
    have other : c.toNat ≠ 48 := fun same => lead (Char.toNat_inj.mp same)
    unfold digitValue
    show 1 ≤ c.toNat - 48
    omega
  have power := Nat.mul_le_mul_right (10 ^ cs.length) value
  rw [natOfDigits_cons]
  omega

/-- A number is written in digits. -/
theorem digits_toDigits (n : Nat) : Text.Digits (Nat.toDigits 10 n) :=
  fun _ hc => Nat.isDigit_of_mem_toDigits (by decide) (by decide) hc

/-- The digits of a number spell it. -/
theorem natOfDigits_toDigits (n : Nat) : natOfDigits (Nat.toDigits 10 n) = n := by
  have same := @Nat.ofDigitChars_ten_toDigits n
  rw [Nat.ofDigitChars_eq_foldl] at same
  exact same

-- ============================================================== reading

/-- A text spells a whole number: digits, with or without a plus sign in front. -/
def SpellsWhole (cs : List Char) (n : Nat) : Prop :=
  ∃ digits, digits ≠ [] ∧ Text.Digits digits ∧ (cs = digits ∨ cs = '+' :: digits)
    ∧ natOfDigits digits = n

variable {limit n : Nat}

/-- Digits are read onto a number if what they make of it is within the bound. -/
theorem readDigits_eq_ok_iff {m : Nat} (within : m ≤ limit) : readDigits limit m cs = .ok n
    ↔ Text.Digits cs ∧ m * 10 ^ cs.length + natOfDigits cs = n ∧ n ≤ limit := by
  induction cs generalizing m with
  | nil =>
      have same : m * 10 ^ ([] : List Char).length + natOfDigits [] = m :=
        (Nat.mul_one m).trans rfl
      rw [same, readDigits]
      constructor
      · intro read
        cases read
        exact ⟨nofun, rfl, within⟩
      · rintro ⟨-, rfl, -⟩
        rfl
  | cons c cs ih =>
      have value : m * 10 ^ (c :: cs).length + natOfDigits (c :: cs)
          = (10 * m + digitValue c) * 10 ^ cs.length + natOfDigits cs := by
        rw [natOfDigits_cons, List.length_cons]
        ring
      have more : Text.Digits (c :: cs) ↔ c.isDigit = true ∧ Text.Digits cs :=
        List.forall_mem_cons
      rw [readDigits, value, more]
      by_cases digit : c.isDigit = true
      · rw [if_pos digit, and_iff_right digit]
        dsimp only
        by_cases fits : 10 * m + digitValue c ≤ limit
        · rw [if_pos fits]
          exact ih fits
        · -- the digits after it make the number no smaller
          rw [if_neg fits]
          refine ⟨nofun, ?_⟩
          rintro ⟨-, rfl, bound⟩
          have grows : 10 * m + digitValue c ≤ (10 * m + digitValue c) * 10 ^ cs.length :=
            Nat.le_mul_of_pos_right _ (Nat.pow_pos (by decide))
          omega
      · rw [if_neg digit]
        exact ⟨nofun, fun spelled => absurd spelled.1.1 digit⟩

/-- A text is read exactly if it spells a number within the bound. -/
theorem readWholeChars_eq_ok_iff :
    readWholeChars limit cs = .ok n ↔ SpellsWhole cs n ∧ n ≤ limit := by
  have digits_iff (ds : List Char) : readDigits limit 0 ds = .ok n
      ↔ Text.Digits ds ∧ natOfDigits ds = n ∧ n ≤ limit := by
    rw [readDigits_eq_ok_iff (Nat.zero_le limit), Nat.zero_mul, Nat.zero_add]
  unfold readWholeChars
  split
  next =>
    refine ⟨nofun, ?_⟩
    rintro ⟨⟨digits, some, -, rfl | signed, -⟩, -⟩
    · exact absurd rfl some
    · cases signed
  next =>
    refine ⟨nofun, ?_⟩
    rintro ⟨⟨digits, some, all, rfl | same, -⟩, -⟩
    · exact absurd (all '+' List.mem_cons_self) (by decide)
    · exact absurd (List.cons.inj same).2.symm some
  next ds alone =>
    rw [digits_iff]
    constructor
    · rintro ⟨all, value, bound⟩
      exact ⟨⟨ds, fun none => alone (none ▸ rfl), all, Or.inr rfl, value⟩, bound⟩
    · rintro ⟨⟨digits, some, all, rfl | same, value⟩, bound⟩
      · exact absurd (all '+' List.mem_cons_self) (by decide)
      · cases same
        exact ⟨all, value, bound⟩
  next some other signed =>
    rw [digits_iff]
    constructor
    · rintro ⟨all, value, bound⟩
      exact ⟨⟨cs, some, all, Or.inl rfl, value⟩, bound⟩
    · rintro ⟨⟨digits, -, all, rfl | same, value⟩, bound⟩
      · exact ⟨all, value, bound⟩
      · exact absurd same (signed digits)

/-- What is written of a number spells it. -/
theorem spellsWhole_toDigits (n : Nat) : SpellsWhole (Nat.toDigits 10 n) n :=
  ⟨_, Nat.toDigits_ne_nil, digits_toDigits n, Or.inl rfl, natOfDigits_toDigits n⟩

end Metrograph.Decimal
