import Mathlib.Data.Fintype.Prod
import Mathlib.Data.Fintype.EquivFin
import Mathlib.Algebra.Order.Group.Unbundled.Int
import Mathlib.Tactic.Linarith
import Mathlib.Tactic.Ring

/-!
# Strips of cells

A strip is a number of rows of cells; the rows are equally long, and begin at equal distances from each other. A strip
whose rows do not overlap is covered by another one with as many rows, equally long, only if this has the same rows,
from the first to the last or the other way round (`inOrder_of_cover`).
-/

namespace Lib.Strips

/-- Cell `j` of row `k`. -/
def cell (start step : ℤ) (k j : ℕ) : ℤ := start + k * step + j

variable {start step start' step' : ℤ} {h n k j k' j' : ℕ}

/-- A quotient and a remainder. -/
theorem mul_add_inj {step x x' y y' : ℤ} (hx : 0 ≤ x ∧ x < step) (hx' : 0 ≤ x' ∧ x' < step) :
    y * step + x = y' * step + x' ↔ y = y' ∧ x = x' := by
  refine ⟨fun heq => ?_, fun ⟨hy, hx⟩ => by rw [hy, hx]⟩
  have hquot : ∀ x y : ℤ, 0 ≤ x ∧ x < step → (y * step + x) / step = y := by
    intro x y hx
    rw [add_comm, Int.add_mul_ediv_right _ _ (ne_of_gt (Int.lt_of_le_of_lt hx.1 hx.2)),
      Int.ediv_eq_zero_of_lt hx.1 hx.2, zero_add]
  have hy : y = y' := by rw [← hquot x y hx, heq, hquot x' y' hx']
  exact ⟨hy, by rw [hy] at heq; linarith⟩

theorem cell_inj (hstep : (n : ℤ) ≤ |step|) (hj : j < n) (hj' : j' < n) :
    cell start step k j = cell start step k' j' ↔ k = k' ∧ j = j' := by
  have hrow : ∀ j : ℕ, j < n → 0 ≤ (j : ℤ) ∧ (j : ℤ) < |step| := fun j hj =>
    ⟨Int.natCast_nonneg j, Int.lt_of_lt_of_le (Int.ofNat_lt.mpr hj) hstep⟩
  rw [cell, cell, add_assoc, add_assoc, add_right_inj]
  rcases abs_cases step with ⟨habs, -⟩ | ⟨habs, -⟩
  · rw [habs] at hrow
    rw [mul_add_inj (hrow j hj) (hrow j' hj'), Nat.cast_inj, Nat.cast_inj]
  · rw [habs] at hrow
    rw [← neg_mul_neg, ← neg_mul_neg (k' : ℤ), mul_add_inj (hrow j hj) (hrow j' hj'), neg_inj, Nat.cast_inj,
      Nat.cast_inj]

theorem cell_congr (hk : k < h) (hstep : 1 < h → step = step') : cell start step k j = cell start step' k j := by
  rcases Nat.eq_zero_or_pos k with rfl | hpos
  · rw [cell, cell, Nat.cast_zero, zero_mul, zero_mul]
  · rw [hstep (Nat.lt_of_le_of_lt hpos hk)]

/-- The cells of a strip, row by row, with what is wanted of each. -/
def strip {β : Type*} (h n : ℕ) (f : ℕ → ℕ → β) : List β := (List.range h).flatMap fun k => (List.range n).map (f k)

theorem mem_strip {β : Type*} {f : ℕ → ℕ → β} {b : β} : b ∈ strip h n f ↔ ∃ k < h, ∃ j < n, f k j = b := by
  simp only [strip, List.mem_flatMap, List.mem_map, List.mem_range]

theorem pairwise_range {R : ℕ → ℕ → Prop} : (List.range n).Pairwise R ↔ ∀ j < n, ∀ i < j, R i j := by
  simp only [List.pairwise_iff_getElem, List.length_range, List.getElem_range]
  exact ⟨fun hall j hj i hi => hall i j (hi.trans hj) hj hi, fun hall i j _ hj hi => hall j hj i hi⟩

/-- What holds of any two in their order. -/
theorem pairwise_strip {β : Type*} {R : β → β → Prop} {f : ℕ → ℕ → β} : (strip h n f).Pairwise R ↔
    (∀ k < h, ∀ j < n, ∀ i < j, R (f k i) (f k j)) ∧ ∀ k < h, ∀ l < k, ∀ i < n, ∀ j < n, R (f l i) (f k j) := by
  simp only [strip, List.pairwise_flatMap, List.mem_range, List.pairwise_map, List.forall_mem_map, pairwise_range]

/-- Rows that are far enough from each other have no cell in common. -/
theorem nodup_strip {α β : Type*} {f : ℤ → α} (hf : f.Injective) (hstep : 1 < h → (n : ℤ) ≤ |step|) (g : ℕ → ℕ → β) :
    ((strip h n fun k j => (f (cell start step k j), g k j)).map Prod.fst).Nodup := by
  rw [List.Nodup, List.pairwise_map, pairwise_strip]
  constructor
  · intro k _ j _ i hi heq
    have hcells : cell start step k i = cell start step k j := hf heq
    rw [cell, cell, add_right_inj, Nat.cast_inj] at hcells
    exact absurd hcells (Nat.ne_of_lt hi)
  · intro k hk l hl i hi j hj heq
    exact absurd ((cell_inj (hstep (by omega)) hi hj).mp (hf heq)).1 (Nat.ne_of_lt hl)

/-- On a finite type a map that takes all the values of an injective one is injective, and takes no others. -/
theorem of_cover {ι α : Type*} [Finite ι] {f g : ι → α} (hg : g.Injective) (hcover : ∀ x, ∃ y, f y = g x) :
    f.Injective ∧ ∀ y, ∃ x, g x = f y := by
  choose σ hσ using hcover
  have hinj : σ.Injective := fun x x' hx => hg (by rw [← hσ x, ← hσ x', hx])
  have hsurj : σ.Surjective := Finite.injective_iff_surjective.mp hinj
  constructor
  · intro y y' hy
    obtain ⟨x, rfl⟩ := hsurj y
    obtain ⟨x', rfl⟩ := hsurj y'
    rw [hσ, hσ] at hy
    rw [hg hy]
  · intro y
    obtain ⟨x, rfl⟩ := hsurj y
    exact ⟨x, (hσ x).symm⟩

/-- A strip that covers another has no cells outside it. -/
theorem exists_cell_of_cover (hstep : (n : ℤ) ≤ step)
    (hcover : ∀ k < h, ∀ j < n, ∃ k' < h, ∃ j' < n, cell start' step' k' j' = cell start step k j) (hk : k < h)
    (hj : j < n) :
    ∃ k' < h, ∃ j' < n, cell start step k' j' = cell start' step' k j := by
  have hinj : (fun x : Fin h × Fin n => cell start step x.1 x.2).Injective := fun x x' hx => by
    obtain ⟨hk, hj⟩ := (cell_inj (hstep.trans (le_abs_self step)) x.2.isLt x'.2.isLt).mp hx
    exact Prod.ext (Fin.ext hk) (Fin.ext hj)
  have hall := (of_cover (f := fun x : Fin h × Fin n => cell start' step' x.1 x.2) hinj fun x => by
    obtain ⟨k', hk', j', hj', heq⟩ := hcover x.1 x.1.isLt x.2 x.2.isLt
    exact ⟨(⟨k', hk'⟩, ⟨j', hj'⟩), heq⟩).2
  obtain ⟨⟨k', j'⟩, heq⟩ := hall (⟨k, hk⟩, ⟨j, hj⟩)
  exact ⟨k', k'.isLt, j', j'.isLt, heq⟩

/-- The rows are those of a strip, from the first to the last or the other way round. -/
def InOrder (first line : ℤ) (h : ℕ) (start step : ℤ) : Prop :=
  (start = first ∧ (1 < h → step = line)) ∨ (start = first + (h - 1) * line ∧ (1 < h → step = -line))

/-- **Covering a strip**: the same rows, from the first to the last or the other way round. -/
theorem inOrder_of_cover (hh : 0 < h) (hn : 0 < n) (hstep : (n : ℤ) ≤ step)
    (hcover : ∀ k < h, ∀ j < n, ∃ k' < h, ∃ j' < n, cell start' step' k' j' = cell start step k j) :
    InOrder start step h start' step' := by
  have hpos : 0 < step := Int.lt_of_lt_of_le (Int.natCast_pos.mpr hn) hstep
  have hlast : h - 1 < h := Nat.sub_lt hh Nat.one_pos
  have hcast : ((h - 1 : ℕ) : ℤ) = h - 1 := by omega
  -- No row begins before the first, or after the last.
  have hbounds : ∀ k < h, start ≤ start' + k * step' ∧ start' + k * step' ≤ start + (h - 1) * step := by
    intro k hk
    obtain ⟨k₀, hk₀, j₀, hj₀, hfirst⟩ := exists_cell_of_cover hstep hcover hk hn
    obtain ⟨k₁, hk₁, j₁, hj₁, hend⟩ := exists_cell_of_cover hstep hcover hk (Nat.sub_lt hn Nat.one_pos)
    rw [cell, cell] at hfirst hend
    have hk₁' : (k₁ : ℤ) * step ≤ (h - 1) * step := Int.mul_le_mul_of_nonneg_right (by omega) hpos.le
    have hk₀' : 0 ≤ (k₀ : ℤ) * step := Int.mul_nonneg (Int.natCast_nonneg _) hpos.le
    constructor
    · omega
    · omega
  -- But one begins with the first, and one with the last.
  obtain ⟨k₀, hk₀, hfirst⟩ : ∃ k < h, start' + k * step' ≤ start := by
    obtain ⟨k, hk, j, -, heq⟩ := hcover 0 hh 0 hn
    rw [cell, cell] at heq
    exact ⟨k, hk, by omega⟩
  obtain ⟨k₁, hk₁, hend⟩ : ∃ k < h, start + (h - 1) * step ≤ start' + k * step' := by
    obtain ⟨k, hk, j, hj, heq⟩ := hcover (h - 1) hlast (n - 1) (Nat.sub_lt hn Nat.one_pos)
    rw [cell, cell, hcast] at heq
    exact ⟨k, hk, by omega⟩
  obtain ⟨hlow, hhigh⟩ := hbounds 0 hh
  obtain ⟨hlow', hhigh'⟩ := hbounds (h - 1) hlast
  rw [Nat.cast_zero, zero_mul, add_zero] at hlow hhigh
  rw [hcast] at hlow' hhigh'
  have hsteps : ∀ {a b : ℤ}, ((h : ℤ) - 1) * a = (h - 1) * b → 1 < h → a = b := fun hmul h1 =>
    Int.eq_of_mul_eq_mul_left (by omega) hmul
  rcases Int.le_total 0 step' with hup | hdown
  · have h0 : 0 ≤ (k₀ : ℤ) * step' := Int.mul_nonneg (Int.natCast_nonneg _) hup
    have h1 : (k₁ : ℤ) * step' ≤ (h - 1) * step' := Int.mul_le_mul_of_nonneg_right (by omega) hup
    exact .inl ⟨by omega, hsteps (by omega)⟩
  · have h0 : ((h : ℤ) - 1) * step' ≤ k₀ * step' := Int.mul_le_mul_of_nonpos_right (by omega) hdown
    have h1 : (k₁ : ℤ) * step' ≤ 0 := Int.mul_nonpos_of_nonneg_of_nonpos (Int.natCast_nonneg _) hdown
    refine .inr ⟨by omega, hsteps ?_⟩
    rw [Int.mul_neg]
    omega

/-- A single row is the first and the last one. -/
theorem inOrder_iff (hh : 0 < h) : InOrder start step h start' step' ↔
    (start' = start + (h - 1) * step ∧ (1 < h → step' = -step)) ∨ (1 < h ∧ start' = start ∧ step' = step) := by
  rcases Nat.lt_or_ge 1 h with h1 | h1
  · simp only [InOrder, h1, true_and, true_implies]
    exact or_comm
  · obtain rfl : h = 1 := le_antisymm h1 hh
    simp [InOrder]

/-- In the one order or the other, these are the cells of the strip. -/
theorem InOrder.exists_cell_iff (ho : InOrder start step h start' step') {c : ℤ} :
    (∃ k < h, ∃ j < n, cell start' step' k j = c) ↔ ∃ k < h, ∃ j < n, cell start step k j = c := by
  rcases ho with ⟨rfl, hstep⟩ | ⟨rfl, hstep⟩
  · exact exists_congr fun k => and_congr_right fun hk => by simp only [cell_congr hk hstep]
  · have hcell : ∀ k < h, ∀ j, cell (start + (h - 1) * step) step' k j = cell start step (h - 1 - k) j := by
      intro k hk j
      rw [cell_congr hk hstep, cell, cell, Nat.cast_sub (Nat.le_sub_one_of_lt hk), Nat.cast_sub (Nat.one_le_of_lt hk),
        Nat.cast_one]
      ring
    constructor
    · rintro ⟨k, hk, j, hj, rfl⟩
      exact ⟨h - 1 - k, by omega, j, hj, (hcell k hk j).symm⟩
    · rintro ⟨k, hk, j, hj, rfl⟩
      refine ⟨h - 1 - k, by omega, j, hj, ?_⟩
      rw [hcell _ (by omega), Nat.sub_sub_self (Nat.le_sub_one_of_lt hk)]

/-- From the first to the last, if they do not begin behind the first. -/
theorem InOrder.of_le (ho : InOrder start step h start' step') (hh : 0 < h) (hpos : 0 < step) (hle : start' ≤ start) :
    start' = start ∧ (1 < h → step' = step) := by
  refine ho.elim id fun ⟨hlast, _⟩ => ?_
  have hone : h = 1 := by
    by_contra hne
    have hpos : 0 < ((h : ℤ) - 1) * step := Int.mul_pos (by omega) hpos
    omega
  rw [hone, Nat.cast_one, sub_self, zero_mul, add_zero] at hlast
  exact ⟨hlast, fun h1 => absurd hone (Nat.ne_of_gt h1)⟩

/-- Strips with the same cells begin with the same cell, and go on in the same way. -/
theorem start_step_of_cell_eq (hh : 0 < h) (hn : 0 < n)
    (heq : ∀ k < h, ∀ j < n, cell start' step' k j = cell start step k j) :
    start' = start ∧ (1 < h → step' = step) := by
  have hfirst := heq 0 hh 0 hn
  rw [cell, cell, Nat.cast_zero, zero_mul, add_zero, add_zero, zero_mul, add_zero, add_zero] at hfirst
  refine ⟨hfirst, fun h1 => ?_⟩
  have hnext := heq 1 h1 0 hn
  rw [cell, cell, Nat.cast_one, one_mul, one_mul] at hnext
  omega

end Lib.Strips
