import DuvuvurKernel.Paging.PageMaps

/-!
# The parts of an address

The parts of an address at the lowest levels are the number of a page, in base 512:
`pageNumber`. Going on to the next entry of a page map, as `SetupPageMap` does, is going
on to the first page below that entry.
-/

namespace DuvuvurKernel

namespace LinearAddress4Level

/-- The number of the page of an address, by the parts of the `n` lowest levels. -/
def pageNumber (addr : LinearAddress4Level) : ℕ → ℕ
  | 0 => 0
  | n + 1 => addr.part (n + 1) * 512 ^ n + addr.pageNumber n

variable {addr : LinearAddress4Level} {n level value : ℕ}

theorem part_lt (h : n ≠ 0) : addr.part n < 512 := by
  match n with
  | 0 => exact absurd rfl h
  | 1 => exact addr.page.isLt
  | 2 => exact addr.dir.isLt
  | 3 => exact addr.pdp.isLt
  | 4 => exact addr.pml4.isLt
  | _ + 5 => exact (by decide : 0 < 512)

theorem part_setPart (h0 : n ≠ 0) (h4 : n ≤ 4) (hv : value < 512) : (addr.setPart n value).part n = value := by
  have hmod := Nat.mod_eq_of_lt hv
  match n, h0, h4 with
  | 1, _, _ => exact hmod
  | 2, _, _ => exact hmod
  | 3, _, _ => exact hmod
  | 4, _, _ => exact hmod

theorem part_setPart_of_ne (h : level ≠ n) : (addr.setPart n value).part level = addr.part level := by
  match n with
  | 0 => match level with
    | 0 => exact absurd rfl h
    | 1 | 2 | 3 | 4 | _ + 5 => rfl
  | 1 => match level with
    | 1 => exact absurd rfl h
    | 0 | 2 | 3 | 4 | _ + 5 => rfl
  | 2 => match level with
    | 2 => exact absurd rfl h
    | 0 | 1 | 3 | 4 | _ + 5 => rfl
  | 3 => match level with
    | 3 => exact absurd rfl h
    | 0 | 1 | 2 | 4 | _ + 5 => rfl
  | 4 => match level with
    | 4 => exact absurd rfl h
    | 0 | 1 | 2 | 3 | _ + 5 => rfl
  | _ + 5 => rfl

theorem part_clearParts_of_lt (h : n < level) : (addr.clearParts n).part level = addr.part level := by
  induction n generalizing addr with
  | zero => rfl
  | succ n ih => rw [clearParts, ih (by omega), part_setPart_of_ne (by omega)]

theorem pageNumber_clearParts (h : n ≤ 4) : (addr.clearParts n).pageNumber n = 0 := by
  induction n generalizing addr with
  | zero => rfl
  | succ n ih =>
    rw [pageNumber, clearParts, ih (by omega), part_clearParts_of_lt (Nat.lt_succ_self n),
      part_setPart (Nat.succ_ne_zero n) h (by decide), Nat.zero_mul]

theorem pageNumber_lt : addr.pageNumber n < 512 ^ n := by
  induction n with
  | zero => exact Nat.one_pos
  | succ n ih =>
    have hpart : addr.part (n + 1) + 1 ≤ 512 := part_lt (Nat.succ_ne_zero n)
    have hmul := Nat.mul_le_mul_right (512 ^ n) hpart
    rw [Nat.add_mul, Nat.one_mul] at hmul
    rw [pageNumber, Nat.pow_succ, Nat.mul_comm (512 ^ n)]
    omega

/-- Going on to the next entry. -/
theorem pageNumber_next (h4 : n + 1 ≤ 4) (hlt : addr.part (n + 1) + 1 < 512) :
    ((addr.setPart (n + 1) (addr.part (n + 1) + 1)).clearParts n).part (n + 1) = addr.part (n + 1) + 1 ∧
    ((addr.setPart (n + 1) (addr.part (n + 1) + 1)).clearParts n).pageNumber n = 0 := by
  rw [part_clearParts_of_lt (Nat.lt_succ_self n), part_setPart (Nat.succ_ne_zero n) h4 hlt]
  exact ⟨rfl, pageNumber_clearParts (by omega)⟩

end LinearAddress4Level

end DuvuvurKernel
