import Mathlib.Algebra.Ring.Nat
import Mathlib.Data.List.Induction
import Mathlib.Tactic.Common

/-!
# Numbers as bytes and as bits

A number as its bytes, the lowest first (`toLittle`), and back (`ofLittle`); the number of a row
of bits, the highest first (`ofBits`). In a list of records of one size the record with an index
is found at that multiple of the size (`drop_flatMap`).
-/

namespace Lib.Bytes

/-- The lowest `k` bytes of a number, the lowest first. -/
def toLittle : ℕ → ℕ → List UInt8
  | 0, _ => []
  | k + 1, n => .ofNat n :: toLittle k (n / 256)

/-- The number of some bytes, the lowest first. -/
def ofLittle : List UInt8 → ℕ
  | [] => 0
  | b :: bs => b.toNat + 256 * ofLittle bs

/-- The number of a row of bits, the highest first. -/
def ofBits (bits : List Bool) : ℕ := bits.foldl (fun a b => 2 * a + b.toNat) 0

variable {k n i : ℕ} {bits : List Bool}

theorem length_toLittle (k n : ℕ) : (toLittle k n).length = k := by
  induction k generalizing n with
  | zero => rfl
  | succ k ih => rw [toLittle, List.length_cons, ih]

theorem ofLittle_toLittle (h : n < 256 ^ k) : ofLittle (toLittle k n) = n := by
  induction k generalizing n with
  | zero =>
    rw [Nat.pow_zero, Nat.lt_one_iff] at h
    exact h.symm
  | succ k ih =>
    have hdiv : n / 256 < 256 ^ k := by
      rw [Nat.pow_succ] at h
      exact Nat.div_lt_of_lt_mul (by rwa [Nat.mul_comm] at h)
    have hbyte : (UInt8.ofNat n).toNat = n % 256 := UInt8.toNat_ofNat'
    rw [toLittle, ofLittle, ih hdiv, hbyte]
    exact Nat.mod_add_div n 256

theorem ofBits_concat (bits : List Bool) (b : Bool) : ofBits (bits ++ [b]) = 2 * ofBits bits + b.toNat := by
  rw [ofBits, List.foldl_append]
  rfl

theorem ofBits_lt (bits : List Bool) : ofBits bits < 2 ^ bits.length := by
  induction bits using List.reverseRecOn with
  | nil => decide
  | append_singleton bits b ih =>
    have hb : b.toNat ≤ 1 := Bool.toNat_le b
    rw [ofBits_concat, List.length_append, List.length_singleton, Nat.pow_succ]
    omega

/-- The bits of the number are those of the row. -/
theorem testBit_ofBits (h : i < bits.length) : (ofBits bits).testBit (bits.length - 1 - i) = bits[i] := by
  induction bits using List.reverseRecOn with
  | nil => cases h
  | append_singleton bits b ih =>
    rw [List.length_append, List.length_singleton] at h
    rw [ofBits_concat, List.length_append, List.length_singleton]
    rcases Nat.lt_or_eq_of_le (Nat.le_of_lt_succ h) with hlt | rfl
    · have hdiv : (2 * ofBits bits + b.toNat) / 2 = ofBits bits := by
        have hb : b.toNat ≤ 1 := Bool.toNat_le b
        omega
      rw [show bits.length + 1 - 1 - i = bits.length - 1 - i + 1 by omega, Nat.testBit_succ, hdiv, ih hlt,
        List.getElem_append_left hlt]
    · rw [Nat.add_sub_cancel, Nat.sub_self, Nat.testBit_zero, List.getElem_concat_length rfl]
      cases b <;> simp

/-- The records from an index on. -/
theorem drop_flatMap {α : Type*} {l : List α} {f : α → List UInt8} {size : ℕ} (hk : k ≤ l.length)
    (h : ∀ a ∈ l.take k, (f a).length = size) (rest : List UInt8) :
    (l.flatMap f ++ rest).drop (k * size) = (l.drop k).flatMap f ++ rest := by
  induction k generalizing l with
  | zero => rw [Nat.zero_mul, List.drop_zero, List.drop_zero]
  | succ k ih =>
    cases l with
    | nil => cases hk
    | cons a l =>
      rw [List.take_succ_cons, List.forall_mem_cons] at h
      rw [List.flatMap_cons, List.append_assoc, List.drop_succ_cons, Nat.succ_mul, Nat.add_comm, ← List.drop_drop,
        List.drop_left' h.1, ih (Nat.le_of_succ_le_succ hk) h.2]

theorem length_flatMap_of_forall {α : Type*} {l : List α} {f : α → List UInt8} {size : ℕ}
    (h : ∀ a ∈ l, (f a).length = size) : (l.flatMap f).length = l.length * size := by
  induction l with
  | nil => rw [List.flatMap_nil, List.length_nil, List.length_nil, Nat.zero_mul]
  | cons a l ih =>
    rw [List.forall_mem_cons] at h
    rw [List.flatMap_cons, List.length_append, h.1, ih h.2, List.length_cons, Nat.succ_mul, Nat.add_comm]

end Lib.Bytes
