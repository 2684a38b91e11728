import DuvuvurKernel.Lib.Copies
import DuvuvurKernel.Lib.Strips

/-!
# Moving strips

A strip of cells is moved within a memory by copying its rows, one after the other. What the rows have to be like for
this is settled by arithmetic (`moves_iff`): they are those of the strip, in one of the two orders, and none has been
overwritten when its turn comes.
-/

namespace Lib.Moves

open Lib.Copies Lib.Strips

/-- The copies of a strip: from one start and to another, row by row. -/
def moves (start source step : ℤ) (h n : ℕ) : List (ℤ × ℤ) :=
  strip h n fun k j => (cell start step k j, cell source step k j)

variable {start source step first line shift c : ℤ} {h n k j : ℕ}

/-! ### The rows -/

/-- No cell is copied to twice. -/
theorem nodup_moves (ho : InOrder first line h start step) (hline : (n : ℤ) ≤ line) :
    ((moves start source step h n).map Prod.fst).Nodup := by
  refine nodup_strip Function.injective_id (fun h1 => hline.trans ?_) _
  rcases ho with ⟨-, hstep⟩ | ⟨-, hstep⟩
  · exact hstep h1 ▸ le_abs_self step
  · rw [hstep h1, abs_neg]
    exact le_abs_self line

theorem mem_moves {p : ℤ × ℤ} : p ∈ moves start source step h n ↔
    ∃ k < h, ∃ j < n, (cell start step k j, cell source step k j) = p := mem_strip

/-- Cells outside the strip are not copied to. -/
theorem exists_of_copies_ne {β : Type*} {m : ℤ → β} (hne : copies m (moves start source step h n) c ≠ m c) :
    ∃ k < h, ∃ j < n, cell start step k j = c := by
  obtain ⟨p, hp, hpc⟩ := List.mem_map.mp (mem_of_copies_ne hne)
  obtain ⟨k, hk, j, hj, rfl⟩ := mem_moves.mp hp
  exact ⟨k, hk, j, hj, hpc⟩

/-- No row that is still to be copied has been overwritten. -/
theorem fresh_moves (hsource : source = start - shift) (hn : (n : ℤ) ≤ |shift|) :
    Fresh (moves start source step h n) ↔ ∀ e < h, (n : ℤ) ≤ |e * step - shift| := by
  have hcell : ∀ {k l i j : ℕ}, l ≤ k →
      (cell source step k j = cell start step l i ↔ ((k - l : ℕ) : ℤ) * step - shift = i - j) := by
    intro k l i j hl
    rw [cell, cell, hsource, Nat.cast_sub hl, sub_mul]
    constructor
    · intro heq
      linarith
    · intro heq
      linarith
  rw [Fresh, moves, pairwise_strip]
  constructor
  · rintro ⟨-, hrows⟩ e he
    by_contra hlt
    have hlt' := abs_lt.mp (Int.not_le.mp hlt)
    have hpos : 0 < e := Nat.pos_of_ne_zero fun h0 => by
      rw [h0, Nat.cast_zero, zero_mul, zero_sub, abs_neg] at hlt
      exact hlt hn
    -- A byte that the row and the overwritten one have in common.
    generalize hd : (e : ℤ) * step - shift = d at hlt'
    refine hrows e he 0 hpos d.toNat (by omega) (-d).toNat (by omega) ((hcell (Nat.zero_le e)).mpr ?_)
    rw [Nat.sub_zero, hd]
    omega
  · intro hall
    constructor
    · intro k _ j hj i hi heq
      have hd := (hcell (le_refl k)).mp heq
      rw [Nat.sub_self, Nat.cast_zero, zero_mul, zero_sub] at hd
      rw [← abs_neg, hd] at hn
      have hlt : |(i : ℤ) - j| < n := abs_lt.mpr ⟨by omega, by omega⟩
      exact absurd hn (Int.not_le.mpr hlt)
    · intro k hk l hl i hi j hj heq
      have hd := (hcell (Nat.le_of_lt hl)).mp heq
      have hle := hall (k - l) (by omega)
      rw [hd] at hle
      have hlt : |(i : ℤ) - j| < n := abs_lt.mpr ⟨by omega, by omega⟩
      exact absurd hle (Int.not_le.mpr hlt)

/-! ### How far the rows are from each other -/

/-- Rows that are not beside each other have no cell in common. -/
theorem row_apart {width d a : ℤ} (hd : |d| + width ≤ line) (hwidth : 0 ≤ width) (ha : a ≠ 0) :
    width ≤ |a * line + d| := by
  have hd' := abs_le.mp (le_refl |d|)
  have hline : 0 ≤ line := (Int.add_nonneg (abs_nonneg d) hwidth).trans hd
  rcases Int.lt_or_gt_of_ne ha with hneg | hpos
  · have hmul : a * line ≤ -1 * line := Int.mul_le_mul_of_nonneg_right (by omega) hline
    exact le_abs.mpr (.inr (by omega))
  · have hmul : 1 * line ≤ a * line := Int.mul_le_mul_of_nonneg_right (by omega) hline
    exact le_abs.mpr (.inl (by omega))

/-- How far a row is from where a strip is moved, by `rows` rows and `d` cells, if the rows go on with the next one, or
the one before: a row that comes to lie beside itself is moved by its width at least. -/
theorem rows_apart_iff {width d rows sign : ℤ} (hd : |d| + width ≤ line) (hwidth : 0 ≤ width)
    (hstep : 1 < h → step = sign * line) :
    (∀ e < h, width ≤ |e * step - (rows * line + d)|) ↔ ((∃ e < h, e * sign = rows) → width ≤ |d|) := by
  have hrow : ∀ e < h, |e * step - (rows * line + d)| = |(rows - e * sign) * line + d| := by
    intro e he
    have heq : (e : ℤ) * step = e * (sign * line) := by
      rcases Nat.eq_zero_or_pos e with rfl | hpos
      · rw [Nat.cast_zero, zero_mul, zero_mul]
      · rw [hstep (Nat.lt_of_le_of_lt hpos he)]
    rw [heq, abs_sub_comm]
    congr 1
    ring
  constructor
  · rintro hall ⟨e, he, rfl⟩
    have hle := hall e he
    rwa [hrow e he, sub_self, zero_mul, zero_add] at hle
  · intro hle e he
    rw [hrow e he]
    rcases eq_or_ne (e * sign) rows with heq | hne
    · rw [heq, sub_self, zero_mul, zero_add]
      exact hle ⟨e, he, heq⟩
    · exact row_apart hd hwidth (sub_ne_zero.mpr hne.symm)

/-! ### Moving -/

/-- **A strip is moved** in every memory just if its rows are copied in one of the two orders, from cells that are as
far away as they should be, and each before it is overwritten. -/
theorem moves_iff {β : Type*} [Nontrivial β] (hh : 0 < h) (hn : 0 < n) (hline : (n : ℤ) ≤ line) (hshift : shift ≠ 0) :
    (∀ (m : ℤ → β), ∀ k < h, ∀ j < n,
        copies m (moves start source step h n) (cell first line k j) = m (cell first line k j - shift)) ↔
      source = start - shift ∧ InOrder first line h start step ∧ Fresh (moves start source step h n) := by
  constructor
  · intro hmoves
    obtain ⟨a, b, hab⟩ := exists_pair_ne β
    -- Every cell of the strip is copied to: else it would not change.
    have hcover : ∀ k < h, ∀ j < n, ∃ k' < h, ∃ j' < n, cell start step k' j' = cell first line k j := by
      intro k hk j hj
      have hne : cell first line k j ≠ cell first line k j - shift := fun heq => hshift (by omega)
      let m : ℤ → β := fun c => if c = cell first line k j - shift then a else b
      have hmove : copies m (moves start source step h n) (cell first line k j) = a :=
        (hmoves m k hk j hj).trans (if_pos rfl)
      have hkept : m (cell first line k j) = b := if_neg hne
      exact exists_of_copies_ne fun heq => hab (hmove.symm.trans (heq.trans hkept))
    have ho : InOrder first line h start step := inOrder_of_cover hh hn hline hcover
    obtain ⟨hsources, hfresh⟩ := fresh_of_copies (nodup_moves ho hline)
        (sub_left_injective (b := shift)) fun m p hp => by
      obtain ⟨k, hk, j, hj, rfl⟩ := mem_moves.mp hp
      obtain ⟨k', hk', j', hj', heq⟩ := ho.exists_cell_iff.mp ⟨k, hk, j, hj, rfl⟩
      exact heq ▸ hmoves m k' hk' j' hj'
    have hsource : source = start - shift := by
      have hfirst := hsources _ (mem_moves.mpr ⟨0, hh, 0, hn, rfl⟩)
      rw [cell, cell] at hfirst
      omega
    exact ⟨hsource, ho, hfresh⟩
  · rintro ⟨hsource, ho, hfresh⟩ m k hk j hj
    obtain ⟨k', hk', j', hj', heq⟩ := ho.exists_cell_iff.mpr ⟨k, hk, j, hj, rfl⟩
    rw [← heq]
    refine (copies_apply (nodup_moves ho hline) hfresh (mem_moves.mpr ⟨k', hk', j', hj', rfl⟩)).trans (congrArg m ?_)
    rw [hsource, cell, cell]
    omega

end Lib.Moves
