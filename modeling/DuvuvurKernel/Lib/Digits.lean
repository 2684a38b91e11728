import Mathlib.Algebra.Group.Nat.Defs

/-!
# Digits of a number

The digits of a number to a base, the lowest first, and the number with one of them changed. This is what a memory of
bytes is to a word of it.
-/

namespace Lib.Digits

/-- The digit with weight `b ^ k`. -/
def digit (b x k : ℕ) : ℕ := x / b ^ k % b

/-- The number with another digit. -/
def setDigit (b x k d : ℕ) : ℕ := x % b ^ k + b ^ k * d + b ^ (k + 1) * (x / b ^ (k + 1))

variable {b x k j d n : ℕ}

/-- What lies above the digit. -/
theorem setDigit_div (hd : d < b) : setDigit b x k d / b ^ (k + 1) = x / b ^ (k + 1) := by
  have hpos : 0 < b := by omega
  have hlow : x % b ^ k + b ^ k * d < b ^ (k + 1) := by
    have hmod := Nat.mod_lt x (Nat.pow_pos (n := k) hpos)
    have hmul := Nat.mul_le_mul_left (b ^ k) (Nat.succ_le_of_lt hd)
    rw [Nat.mul_succ] at hmul
    rw [Nat.pow_succ]
    omega
  rw [setDigit, Nat.add_mul_div_left _ _ (Nat.pow_pos hpos), Nat.div_eq_of_lt hlow, Nat.zero_add]

/-- What lies below the digit. -/
theorem setDigit_mod : setDigit b x k d % b ^ k = x % b ^ k := by
  rw [setDigit, Nat.pow_succ, Nat.mul_assoc, Nat.add_assoc, ← Nat.mul_add, Nat.add_mul_mod_self_left, Nat.mod_mod]

theorem digit_setDigit_self (hd : d < b) : digit b (setDigit b x k d) k = d := by
  have hpos : 0 < b := by omega
  have hsplit : setDigit b x k d = x % b ^ k + b ^ k * (d + b * (x / b ^ (k + 1))) := by
    rw [setDigit, Nat.pow_succ, Nat.mul_assoc, Nat.add_assoc, ← Nat.mul_add]
  rw [digit, hsplit, Nat.add_mul_div_left _ _ (Nat.pow_pos hpos), Nat.div_eq_of_lt (Nat.mod_lt x (Nat.pow_pos hpos)),
    Nat.zero_add, Nat.add_mul_mod_self_left, Nat.mod_eq_of_lt hd]

/-- A digit depends on what lies below a higher one. -/
theorem digit_mod (h : j < k) : digit b (x % b ^ k) j = digit b x j := by
  obtain ⟨m, rfl⟩ := Nat.exists_eq_add_of_lt h
  rw [digit, digit, show j + m + 1 = j + (m + 1) by omega, Nat.pow_add, Nat.mod_mul_right_div_self, Nat.mod_mod_of_dvd]
  exact ⟨b ^ m, Nat.pow_succ'⟩

/-- A digit depends on what lies above a lower one. -/
theorem digit_div (h : k < j) : digit b x j = digit b (x / b ^ (k + 1)) (j - (k + 1)) := by
  rw [digit, digit, Nat.div_div_eq_div_mul, ← Nat.pow_add, show k + 1 + (j - (k + 1)) = j by omega]

theorem digit_setDigit_of_ne (hd : d < b) (h : j ≠ k) : digit b (setDigit b x k d) j = digit b x j := by
  rcases Nat.lt_or_gt_of_ne h with hlt | hgt
  · rw [← digit_mod hlt, setDigit_mod, digit_mod hlt]
  · rw [digit_div hgt, setDigit_div hd, ← digit_div hgt]

/-- The number stays within its digits. -/
theorem setDigit_lt (hx : x < b ^ n) (hk : k < n) (hd : d < b) : setDigit b x k d < b ^ n := by
  have hpos : 0 < b ^ (k + 1) := Nat.pow_pos (by omega)
  obtain ⟨m, rfl⟩ := Nat.exists_eq_add_of_lt hk
  have hsplit : b ^ (k + m + 1) = b ^ m * b ^ (k + 1) := by rw [← Nat.pow_add, show m + (k + 1) = k + m + 1 by omega]
  rw [hsplit, ← Nat.div_lt_iff_lt_mul hpos] at hx ⊢
  rwa [setDigit_div hd]

end Lib.Digits
