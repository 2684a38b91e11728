import Mathlib.Order.Nat
import Mathlib.Tactic.Common

/-!
# Lower bounds

Binary search for the first of `n` positions that is not below what is looked for. The
search halves the range that is left (`search`), and notes the positions it looks at.

It looks at positions of the range only (`search_reads`). When the positions below come
first, it finds where they end, which is `n` if they all are (`bound_splits`).
-/

namespace Lib.LowerBound

variable (below : ℕ → Bool)

/-- The search in `len` positions from `first` on, for at most `fuel` rounds: the position found, and those
looked at. -/
def search : ℕ → ℕ → ℕ → ℕ × List ℕ
  | 0, first, _ => (first, [])
  | fuel + 1, first, len =>
    if len = 0 then (first, [])
    else
      let half := len / 2
      let m := first + half
      let rest := if below m then search fuel (m + 1) (len - (half + 1)) else search fuel first half
      (rest.1, m :: rest.2)

/-- The search in the first `n` positions. -/
def bound (n : ℕ) : ℕ × List ℕ := search below n 0 n

/-- The positions below come first, and end at `r`. -/
structure Splits (n r : ℕ) : Prop where
  le : r ≤ n
  before : ∀ i < r, below i = true
  after : ∀ i, r ≤ i → i < n → below i = false

/-- The positions below come first. -/
def Initial (n : ℕ) : Prop := ∀ i j, i ≤ j → j < n → below j = true → below i = true

variable {below} {fuel first len n r : ℕ}

/-- Only positions of the range are looked at. -/
theorem search_reads {i : ℕ} (hi : i ∈ (search below fuel first len).2) : first ≤ i ∧ i < first + len := by
  induction fuel generalizing first len with
  | zero => cases hi
  | succ fuel ih =>
    rw [search] at hi
    split at hi
    next => cases hi
    next hlen =>
      rcases List.mem_cons.mp hi with rfl | hi
      · omega
      · split at hi
        · have hin := ih hi
          omega
        · have hin := ih hi
          omega

/-- What is left of the range ends up at the place where the positions below end. -/
theorem search_splits (hinitial : Initial below n) (hfuel : len ≤ fuel) (hle : first + len ≤ n)
    (hbefore : ∀ i < first, below i = true) (hafter : ∀ i, first + len ≤ i → i < n → below i = false) :
    Splits below n (search below fuel first len).1 := by
  induction fuel generalizing first len with
  | zero =>
    obtain rfl : len = 0 := by omega
    exact ⟨hle, hbefore, hafter⟩
  | succ fuel ih =>
    rw [search]
    split
    next hlen =>
      obtain rfl : len = 0 := hlen
      exact ⟨hle, hbefore, hafter⟩
    next hlen =>
      have hm : first + len / 2 < n := by omega
      dsimp only
      cases hbelow : below (first + len / 2) with
      | true =>
        rw [if_pos rfl]
        refine ih (by omega) (by omega) (fun i hi => ?_) (fun i hi => hafter i (by omega))
        exact hinitial i _ (by omega) hm hbelow
      | false =>
        rw [if_neg Bool.false_ne_true]
        refine ih (by omega) (by omega) hbefore fun i hi hlt => ?_
        by_contra htrue
        rw [hinitial _ i hi hlt (by simpa using htrue)] at hbelow
        cases hbelow

theorem bound_splits (hinitial : Initial below n) : Splits below n (bound below n).1 :=
  search_splits hinitial (Nat.le_refl n) (by omega) (fun i hi => absurd hi (Nat.not_lt_zero i)) fun i hi hlt => by omega

theorem bound_reads {i : ℕ} (hi : i ∈ (bound below n).2) : i < n := by
  have hin := search_reads hi
  omega

/-- There is no other such place. -/
theorem Splits.unique {r' : ℕ} (h : Splits below n r) (h' : Splits below n r') : r = r' := by
  have hnot : ∀ {a b}, Splits below n a → Splits below n b → ¬ a < b := by
    intro a b ha hb hlt
    have hfalse := ha.after a (Nat.le_refl a) (Nat.lt_of_lt_of_le hlt hb.le)
    rw [hb.before a hlt] at hfalse
    cases hfalse
  have hle := hnot h h'
  have hge := hnot h' h
  omega

end Lib.LowerBound
