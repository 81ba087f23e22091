import Mathlib.Algebra.Group.Nat.Defs
import Mathlib.Tactic.Common

namespace ZynqLinux.Lib

/-!
# Unsigned 32-bit words as C computes with them

`udiv` is the division of C, without a result for the divisor 0.  The other lemmas move the
idioms of the driver (products and sums that fit, clamps, distances) to natural numbers.
-/

variable {a b : UInt32}

/-- Unsigned division; a division by 0 has no result. -/
def udiv (a b : UInt32) : Option UInt32 := if b = 0 then none else some (a / b)

/-- A division by a positive divisor is the division of natural numbers. -/
theorem udiv_of_pos (a : UInt32) (hb : 0 < b.toNat) :
    ∃ q, udiv a b = some q ∧ q.toNat = a.toNat / b.toNat := by
  refine ⟨a / b, ?_, UInt32.toNat_div a b⟩
  have hne : b ≠ 0 := by
    rintro rfl
    exact absurd hb (by decide)
  rw [udiv, if_neg hne]

/-- A product that fits in 32 bits is the product of natural numbers. -/
theorem toNat_mul_of_lt (h : a.toNat * b.toNat < 2 ^ 32) : (a * b).toNat = a.toNat * b.toNat := by
  rw [UInt32.toNat_mul, Nat.mod_eq_of_lt h]

/-- So is a sum that fits. -/
theorem toNat_add_of_lt (h : a.toNat + b.toNat < 2 ^ 32) : (a + b).toNat = a.toNat + b.toNat := by
  rw [UInt32.toNat_add, Nat.mod_eq_of_lt h]

/-- A counter that has not reached its last value goes on to the next number. -/
theorem toNat_add_one_of_lt (h : a.toNat + 1 < 2 ^ 32) : (a + 1).toNat = a.toNat + 1 := by
  rw [UInt32.toNat_add, UInt32.toNat_one, Nat.mod_eq_of_lt h]

/-- A clamp from above is a minimum. -/
theorem toNat_clampMax (a hi : UInt32) :
    (if a > hi then hi else a).toNat = min a.toNat hi.toNat := by
  split <;> rename_i h <;> rw [gt_iff_lt, UInt32.lt_iff_toNat_lt] at h <;> omega

/-- A clamp from below is a maximum. -/
theorem toNat_clampMin (a lo : UInt32) :
    (if a < lo then lo else a).toNat = max a.toNat lo.toNat := by
  split <;> rename_i h <;> rw [UInt32.lt_iff_toNat_lt] at h <;> omega

/-- The distance of two words, taken without a negative difference, is that of the numbers. -/
theorem toNat_distance (a b : UInt32) :
    (if a ≥ b then a - b else b - a).toNat
      = if a.toNat ≥ b.toNat then a.toNat - b.toNat else b.toNat - a.toNat := by
  by_cases h : a ≥ b
  · have hle : b.toNat ≤ a.toNat := UInt32.le_iff_toNat_le.mp h
    rw [if_pos h, if_pos hle, UInt32.toNat_sub_of_le _ _ h]
  · have hlt : a.toNat < b.toNat := by
      rw [ge_iff_le, UInt32.le_iff_toNat_le] at h
      omega
    rw [if_neg h, if_neg (by omega), UInt32.toNat_sub_of_le]
    exact UInt32.le_iff_toNat_le.mpr (by omega)

end ZynqLinux.Lib
