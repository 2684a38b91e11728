import Mathlib.Algebra.BigOperators.Group.List.Basic
import Mathlib.Algebra.Order.Group.Defs
import Mathlib.Algebra.Order.Sub.Basic

/-!
# Prefixes within a limit

Every element of a list has a weight. Whoever takes one element after the other, as long as the weight of those taken
stays within a limit (`within`), gets the longest prefix within the limit, if no weight is negative
(`longest_within`).
-/

namespace Lib.Prefixes

variable {α M : Type*} [AddCommGroup M] [LinearOrder M] [IsOrderedAddMonoid M] (weight : α → M)

/-- The weight of a list. -/
def total (l : List α) : M := (l.map weight).sum

/-- The elements taken one after the other, within a limit. -/
def within (limit : M) : List α → List α
  | [] => []
  | a :: l => if weight a ≤ limit then a :: within (limit - weight a) l else []

/-- The longest prefix of a list within a limit. -/
structure LongestWithin (limit : M) (l front : List α) : Prop where
  isPrefix : front <+: l
  fits : total weight front ≤ limit
  longest : ∀ front', front' <+: l → total weight front' ≤ limit → front'.length ≤ front.length

variable {weight} {limit : M} {l front front' : List α}

omit [LinearOrder M] [IsOrderedAddMonoid M] in
@[simp] theorem total_nil : total weight [] = 0 := rfl

omit [LinearOrder M] [IsOrderedAddMonoid M] in
@[simp] theorem total_cons (a : α) (l : List α) : total weight (a :: l) = weight a + total weight l :=
  List.sum_cons

theorem total_nonneg (h : ∀ a, 0 ≤ weight a) (l : List α) : 0 ≤ total weight l := by
  induction l with
  | nil => exact le_rfl
  | cons a l ih =>
    rw [total_cons]
    exact add_nonneg (h a) ih

/-- **One element after the other** is the longest prefix within the limit. -/
theorem longest_within (h : ∀ a, 0 ≤ weight a) (hlimit : 0 ≤ limit) (l : List α) :
    LongestWithin weight limit l (within weight limit l) := by
  induction l generalizing limit with
  | nil => exact ⟨List.prefix_rfl, hlimit, fun front' hf _ => hf.length_le⟩
  | cons a l ih =>
    rw [within]
    split
    next ha =>
      obtain ⟨hfront, hfits, hlongest⟩ := ih (sub_nonneg.mpr ha)
      refine ⟨List.cons_prefix_cons.mpr ⟨rfl, hfront⟩, ?_, fun front' hf hfits' => ?_⟩
      · rw [total_cons, add_comm]
        exact le_sub_iff_add_le.mp hfits
      · cases front' with
        | nil => exact Nat.zero_le _
        | cons b front' =>
          obtain ⟨rfl, hrest⟩ := List.cons_prefix_cons.mp hf
          rw [total_cons, add_comm] at hfits'
          exact Nat.succ_le_succ (hlongest front' hrest (le_sub_iff_add_le.mpr hfits'))
    next ha =>
      refine ⟨List.nil_prefix, hlimit, fun front' hf hfits' => ?_⟩
      cases front' with
      | nil => exact le_rfl
      | cons b front' =>
        obtain ⟨rfl, -⟩ := List.cons_prefix_cons.mp hf
        rw [total_cons] at hfits'
        exact absurd ((le_add_of_nonneg_right (total_nonneg h front')).trans hfits') ha

end Lib.Prefixes
