import Mathlib.Algebra.Order.Floor.Div
import Mathlib.Data.Nat.Bitwise

/-!
# Blocks with an alignment and a boundary

A block of `size` bytes is to begin at a multiple of `alignment`, and no multiple of `boundary` is to lie
inside it; an `alignment` or `boundary` of 0 asks for nothing. From an address on, the first place for the
block is found by rounding up twice: to the alignment, and then to the boundary if the block would lie
across one (`firstPlace_le`).
-/

namespace Lib.Alignment

/-- The first multiple of `a` from `n` on, and `n` itself if `a` is 0. -/
def roundUp (n a : ℕ) : ℕ := if a = 0 then n else a * (n ⌈/⌉ a)

/-- A multiple of `b` lies inside the block. -/
def Crosses (p size b : ℕ) : Prop := ∃ m, b ∣ m ∧ p < m ∧ m < p + size

/-- `p` is a place for the block. -/
structure IsPlace (size alignment boundary p : ℕ) : Prop where
  aligned : alignment ≠ 0 → alignment ∣ p
  inside : size ≤ boundary → ¬ Crosses p size boundary

/-- The place that is found from `n` on. -/
def firstPlace (size alignment boundary n : ℕ) : ℕ :=
  let p := roundUp n alignment
  if boundary ≠ 0 ∧ roundUp p boundary < p + size then roundUp p boundary else p

variable {n m a p k size alignment boundary : ℕ}

/-! ### Rounding up -/

theorem le_roundUp (n a : ℕ) : n ≤ roundUp n a := by
  rw [roundUp]
  split
  next => exact Nat.le_refl n
  next ha => exact le_smul_ceilDiv (Nat.pos_of_ne_zero ha)

theorem dvd_roundUp (ha : a ≠ 0) : a ∣ roundUp n a := by
  rw [roundUp, if_neg ha]
  exact Nat.dvd_mul_right a _

theorem roundUp_le (ha : a ≠ 0 → a ∣ m) (h : n ≤ m) : roundUp n a ≤ m := by
  rw [roundUp]
  split
  next => exact h
  next hne =>
    obtain ⟨q, rfl⟩ := ha hne
    exact Nat.mul_le_mul_left a ((ceilDiv_le_iff_le_mul (Nat.pos_of_ne_zero hne)).mpr h)

/-- Rounding down clears the low bits. -/
theorem and_not_low {w : ℕ} (hn : n < 2 ^ w) (hk : k ≤ w) : n &&& (2 ^ w - 1 - (2 ^ k - 1)) = 2 ^ k * (n / 2 ^ k) := by
  have hlow : 2 ^ k - 1 < 2 ^ w := Nat.lt_of_lt_of_le (Nat.sub_one_lt (Nat.two_pow_pos k).ne')
    (Nat.pow_le_pow_right Nat.two_pos hk)
  have hsub : 2 ^ w - 1 - (2 ^ k - 1) = 2 ^ w - (2 ^ k - 1 + 1) := by omega
  refine Nat.eq_of_testBit_eq fun i => ?_
  rw [Nat.testBit_and, hsub, Nat.testBit_two_pow_sub_succ hlow, Nat.testBit_two_pow_sub_one, Nat.testBit_two_pow_mul,
    Nat.testBit_div_two_pow]
  by_cases hi : i < k
  · simp [hi]
  · have hle : k ≤ i := Nat.le_of_not_lt hi
    by_cases hw : i < w
    · simp [hi, hle, hw, Nat.sub_add_cancel hle]
    · have hhigh : n.testBit i = false :=
        Nat.testBit_lt_two_pow (Nat.lt_of_lt_of_le hn (Nat.pow_le_pow_right Nat.two_pos (Nat.le_of_not_lt hw)))
      simp [hi, hle, hw, Nat.sub_add_cancel hle, hhigh]

/-- Rounding up to a power of two. -/
theorem and_not_eq_roundUp {w : ℕ} (hn : n + 2 ^ k - 1 < 2 ^ w) (hk : k ≤ w) :
    (n + 2 ^ k - 1) &&& (2 ^ w - 1 - (2 ^ k - 1)) = roundUp n (2 ^ k) := by
  rw [and_not_low hn hk, roundUp, if_neg (Nat.two_pow_pos k).ne', Nat.ceilDiv_eq_add_pred_div]

/-! ### The first place -/

theorem le_firstPlace (size alignment boundary n : ℕ) : n ≤ firstPlace size alignment boundary n := by
  rw [firstPlace]
  split
  next => exact Nat.le_trans (le_roundUp n alignment) (le_roundUp _ boundary)
  next => exact le_roundUp n alignment

/-- A block at a multiple of the boundary ends before the next one. -/
theorem not_crosses_of_dvd (hp : boundary ∣ p) (hsize : size ≤ boundary) : ¬ Crosses p size boundary := by
  rintro ⟨m, hm, hlt, hend⟩
  have hle : boundary ≤ m - p := Nat.le_of_dvd (Nat.sub_pos_of_lt hlt) (Nat.dvd_sub hm hp)
  omega

theorem isPlace_firstPlace (hdvd : alignment ≠ 0 → boundary ≠ 0 → alignment ∣ boundary) :
    IsPlace size alignment boundary (firstPlace size alignment boundary n) := by
  rw [firstPlace]
  split
  next h =>
    have hb := dvd_roundUp (n := roundUp n alignment) h.1
    exact ⟨fun ha => (hdvd ha h.1).trans hb, not_crosses_of_dvd hb⟩
  next h =>
    refine ⟨dvd_roundUp, fun hsize => ?_⟩
    rintro ⟨m, hm, hlt, hend⟩
    have hne : boundary ≠ 0 := by
      rintro rfl
      exact absurd (Nat.eq_zero_of_zero_dvd hm) (Nat.ne_zero_of_lt hlt)
    exact h ⟨hne, Nat.lt_of_le_of_lt (roundUp_le (fun _ => hm) (Nat.le_of_lt hlt)) hend⟩

/-- **No place comes before the one that is found.** -/
theorem firstPlace_le (hsize : size ≤ boundary ∨ boundary = 0) (hp : IsPlace size alignment boundary p) (hn : n ≤ p) :
    firstPlace size alignment boundary n ≤ p := by
  have hle : roundUp n alignment ≤ p := roundUp_le hp.aligned hn
  rw [firstPlace]
  split
  next h =>
    -- Before the boundary the block would lie across it.
    refine Nat.le_of_not_lt fun hlt => ?_
    exact hp.inside (hsize.resolve_right h.1) ⟨_, dvd_roundUp h.1, hlt,
      Nat.lt_of_lt_of_le h.2 (Nat.add_le_add_right hle size)⟩
  next => exact hle

end Lib.Alignment
