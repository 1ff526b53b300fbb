/-
How far a property of places holds, found by bisection.

# Narrowing down

A step keeps the upper half of the window if its first place has the
property, and else a lower part of the same size. Whatever the property,
the place that is found lies in the window (`bisect_within`), and one that
holds wherever another does is not found to end earlier
(`partitionPoint_mono`): at the first step at which the two go different
ways, the lower part ends where the upper half begins.

# Properties that hold up to a place

Where a property never turns true again, the place that is found is the last
one that has it, unless there is none (`bisect_beyond`), so
`partitionPoint` counts the places that have it (`partitionPoint_spec`).
-/
import Mathlib.Order.Nat
import Metrograph.Wire.Rhythm

namespace Metrograph.Wire

-- ========================================================= narrowing down

section Windows

variable (holds : ℕ → Bool)

/-- With more than one place left the window is halved. -/
theorem bisect_of_more (base : ℕ) {size : ℕ} (more : 1 < size) :
    bisect holds base size = bisect holds
      (if holds (base + size / 2) = true then base + size / 2 else base) (size - size / 2) := by
  rw [bisect, if_pos more]

theorem bisect_of_not_more (base : ℕ) {size : ℕ} (last : ¬ 1 < size) :
    bisect holds base size = base := by
  rw [bisect, if_neg last]

/-- The place that is found lies in the window. -/
theorem bisect_within (base size : ℕ) (pos : 0 < size) :
    base ≤ bisect holds base size ∧ bisect holds base size < base + size := by
  induction size using Nat.strong_induction_on generalizing base with
  | _ size ih =>
      by_cases more : 1 < size
      · rw [bisect_of_more holds base more]
        split_ifs with upper
        · have within := ih (size - size / 2) (by omega) (base + size / 2) (by omega)
          omega
        · have within := ih (size - size / 2) (by omega) base (by omega)
          omega
      · rw [bisect_of_not_more holds base more]
        omega

/-- The one place that is left decides by itself whether it is counted. -/
theorem partitionPoint_of_pos {size : ℕ} (pos : 0 < size) : partitionPoint holds size
    = if holds (bisect holds 0 size) = true then bisect holds 0 size + 1
      else bisect holds 0 size := by
  rw [partitionPoint, if_neg pos.ne']

theorem partitionPoint_le (size : ℕ) : partitionPoint holds size ≤ size := by
  rcases Nat.eq_zero_or_pos size with rfl | pos
  · exact le_rfl
  · have within := bisect_within holds 0 size pos
    rw [partitionPoint_of_pos holds pos]
    split_ifs <;> omega

end Windows

-- ========================================================= two properties

section Implied

variable {holds later : ℕ → Bool} (implied : ∀ i, holds i = true → later i = true)

include implied

/-- If more places hold, the place that is found is no earlier. -/
theorem bisect_mono (base size : ℕ) (pos : 0 < size) :
    bisect holds base size ≤ bisect later base size := by
  induction size using Nat.strong_induction_on generalizing base with
  | _ size ih =>
      by_cases more : 1 < size
      · rw [bisect_of_more holds base more, bisect_of_more later base more]
        split_ifs with here there there
        · exact ih _ (by omega) _ (by omega)
        · exact absurd (implied _ here) there
        · -- the lower part ends where the upper half begins
          have before := (bisect_within holds base (size - size / 2) (by omega)).2
          have after := (bisect_within later (base + size / 2) (size - size / 2) (by omega)).1
          omega
        · exact ih _ (by omega) _ (by omega)
      · rw [bisect_of_not_more holds base more, bisect_of_not_more later base more]

/-- A property that holds wherever another does is found at no fewer places. -/
theorem partitionPoint_mono (size : ℕ) : partitionPoint holds size ≤ partitionPoint later size := by
  rcases Nat.eq_zero_or_pos size with rfl | pos
  · exact le_rfl
  rw [partitionPoint_of_pos holds pos, partitionPoint_of_pos later pos]
  rcases (bisect_mono implied 0 size pos).eq_or_lt with same | before
  · have found := implied (bisect later 0 size)
    rw [same]
    split_ifs with here there
    · exact le_rfl
    · exact absurd (found here) there
    · exact Nat.le_succ _
    · exact le_rfl
  · split_ifs <;> omega

end Implied

-- ======================================= properties that hold up to a place

section Closed

variable {holds : ℕ → Bool} (closed : ∀ i j, i ≤ j → holds j = true → holds i = true)

include closed

/-- No place of the window behind the one that is found has the property, and the
one that is found has it unless it is the first. -/
theorem bisect_beyond (base size : ℕ) (pos : 0 < size) :
    (∀ i, bisect holds base size < i → i < base + size → holds i = false)
      ∧ (bisect holds base size = base ∨ holds (bisect holds base size) = true) := by
  induction size using Nat.strong_induction_on generalizing base with
  | _ size ih =>
      by_cases more : 1 < size
      · rw [bisect_of_more holds base more]
        by_cases upper : holds (base + size / 2) = true
        · rw [if_pos upper]
          obtain ⟨beyond, found⟩ := ih (size - size / 2) (by omega) (base + size / 2) (by omega)
          refine ⟨fun i above within => beyond i above (by omega), Or.inr ?_⟩
          rcases found with first | found
          · rw [first]
            exact upper
          · exact found
        · rw [if_neg upper]
          obtain ⟨beyond, found⟩ := ih (size - size / 2) (by omega) base (by omega)
          refine ⟨fun i above within => ?_, found⟩
          by_cases kept : i < base + (size - size / 2)
          · exact beyond i above kept
          · -- what is dropped begins no earlier than the place that was tried
            refine Bool.eq_false_iff.mpr fun holds' => upper (closed _ i ?_ holds')
            omega
      · rw [bisect_of_not_more holds base more]
        exact ⟨fun i above within => absurd above (by omega), Or.inl rfl⟩

/-- The partition point counts the places that have the property. -/
theorem partitionPoint_spec (size : ℕ) :
    partitionPoint holds size ≤ size
      ∧ ∀ i < size, i < partitionPoint holds size ↔ holds i = true := by
  refine ⟨partitionPoint_le holds size, fun i inside => ?_⟩
  have pos : 0 < size := (Nat.zero_le i).trans_lt inside
  obtain ⟨beyond, found⟩ := bisect_beyond closed 0 size pos
  have not_beyond (has : holds i = true) : i ≤ bisect holds 0 size := by
    by_contra behind
    rw [beyond i (by omega) (by omega)] at has
    exact absurd has Bool.false_ne_true
  rw [partitionPoint_of_pos holds pos]
  split_ifs with last
  · rw [Nat.lt_succ_iff]
    exact ⟨fun le => closed i _ le last, not_beyond⟩
  · have none : bisect holds 0 size = 0 := found.resolve_right last
    rw [none] at last not_beyond ⊢
    refine ⟨fun before => absurd before (Nat.not_lt_zero i), fun has => ?_⟩
    rw [Nat.le_zero.mp (not_beyond has)] at has
    exact absurd has last

end Closed

end Metrograph.Wire
