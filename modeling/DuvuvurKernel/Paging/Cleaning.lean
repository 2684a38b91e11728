import DuvuvurKernel.Paging.LinearAddress
import DuvuvurKernel.Paging.Ownership

/-!
# Cleaning page maps

`CleanPageMap` frees the frames that writable entries point to, and so, of a page map
whose entries are usable, exactly the frames that belong to it (`cleanPageMap_spec`).
-/

namespace DuvuvurKernel

open Lib.TableTrees

variable {s s' s₁ : Machine} {T : Finset ℕ} {n pageMap i f : ℕ} {addr : LinearAddress4Level} {X : Multiset ℕ}

/-- Frames have been freed; the allocator is otherwise as it was. -/
structure Frees (s s' : Machine) (X : Multiset ℕ) : Prop where
  getBit : ∀ f, s'.memoryManager.getBit f = true ↔ s.memoryManager.getBit f = true ∧ f ∉ X
  rangeBegin : s'.memoryManager.rangeBegin = s.memoryManager.rangeBegin
  rangeEnd : s'.memoryManager.rangeEnd = s.memoryManager.rangeEnd
  cr3 : s'.cr3 = s.cr3

/-- The entries `T` of a page map have been cleaned. -/
structure Cleaned (s s' : Machine) (T : Finset ℕ) (n pageMap : ℕ) : Prop where
  frees : Frees s s' (s.below true T n pageMap)
  frame : ∀ f, f ≠ pageMap → f ∉ s.below false T n pageMap → s'.mem f = s.mem f
  others : ∀ i ∉ T, s'.mem pageMap i = s.mem pageMap i

theorem Frees.refl (s : Machine) : Frees s s 0 where
  getBit := by simp
  rangeBegin := rfl
  rangeEnd := rfl
  cr3 := rfl

theorem Frees.trans {s'' : Machine} {Y : Multiset ℕ} (h : Frees s s' X) (h' : Frees s' s'' Y) :
    Frees s s'' (X + Y) where
  getBit := fun f => by rw [h'.getBit, h.getBit, Multiset.mem_add, not_or, and_assoc]
  rangeBegin := h'.rangeBegin.trans h.rangeBegin
  rangeEnd := h'.rangeEnd.trans h.rangeEnd
  cr3 := h'.cr3.trans h.cr3

/-- Freeing one frame. -/
theorem frees_one (hm : s'.memoryManager = s.memoryManager.free f 1) (hc : s'.cr3 = s.cr3) : Frees s s' {f} := by
  refine ⟨fun x => ?_, by rw [hm]; rfl, by rw [hm]; rfl, hc⟩
  rw [hm, BitmapMemoryManager.free_one, BitmapMemoryManager.setBit_getBit, Multiset.mem_singleton]
  by_cases hx : x = f
  · simp [hx]
  · simp [hx]

/-- One entry has been cleaned. -/
structure CleanedEntry (s s' : Machine) (n pageMap i : ℕ) : Prop where
  frees : Frees s s' (held (format true) slots s.mem n (s.mem pageMap i))
  frame : ∀ f, f ≠ pageMap → f ∉ held (format false) slots s.mem n (s.mem pageMap i) → s'.mem f = s.mem f
  others : ∀ j, j ≠ i → s'.mem pageMap j = s.mem pageMap j

/-- The entry after the page map below it has been cleaned. -/
theorem cleanedEntry_of_child (hs : Sound true s T n pageMap) (hi : i ∈ T) (hu : Usable n (s.mem pageMap i))
    (hp : (s.mem pageMap i).present = true) (hzero : n = 0 → s₁ = s)
    (hsucc : ∀ m, n = m + 1 → Cleaned s s₁ slots m (s.mem pageMap i).pointer)
    (hs' : s' = Machine.setEntry (if (s.mem pageMap i).writable then
      { s₁ with memoryManager := s₁.memoryManager.free (s.mem pageMap i).pointer 1 } else s₁) pageMap i .zero) :
    CleanedEntry s s' n pageMap i := by
  have hself : s₁.mem pageMap = s.mem pageMap := by
    cases n with
    | zero => rw [hzero rfl]
    | succ m =>
      have hout : pageMap ∉ held (format false) slots s.mem (m + 1) (s.mem pageMap i) :=
        fun hm => hs.tables.ne_of_mem hi hm rfl
      rw [held_succ_format hp, Multiset.mem_add, Multiset.mem_singleton, not_or] at hout
      exact (hsucc m rfl).frame pageMap hout.1 hout.2
  have hmem : s'.mem = Function.update s₁.mem pageMap (Function.update (s₁.mem pageMap) i .zero) := by
    rw [hs']
    split <;> rfl
  refine ⟨?_, fun f hf hout => ?_, fun j hj => ?_⟩
  · cases n with
    | zero =>
      obtain rfl := hzero rfl
      cases hw : (s₁.mem pageMap i).writable with
      | false =>
        rw [held_leaf_of_not_writable hw]
        rw [hw] at hs'
        exact ⟨by simp [hs', Machine.setEntry], by rw [hs']; rfl, by rw [hs']; rfl, by rw [hs']; rfl⟩
      | true =>
        rw [held_leaf_of_writable hp hw]
        rw [if_pos hw] at hs'
        exact frees_one (by rw [hs']; rfl) (by rw [hs']; rfl)
    | succ m =>
      rw [if_pos ((hu.1 hp).2 (Nat.succ_pos m))] at hs'
      rw [held_succ_format hp, add_comm]
      exact (hsucc m rfl).frees.trans (frees_one (by rw [hs']; rfl) (by rw [hs']; rfl))
  · rw [hmem, Function.update_of_ne hf]
    cases n with
    | zero => rw [hzero rfl]
    | succ m =>
      rw [held_succ_format hp, Multiset.mem_add, Multiset.mem_singleton, not_or] at hout
      exact (hsucc m rfl).frame f hout.1 hout.2
  · rw [hmem, Function.update_self, Function.update_of_ne hj, hself]

/-- The sum over the entries from `i` on. -/
theorem below_slotsFrom {own : Bool} (hi : i < 512) : s.below own (slotsFrom i) n pageMap =
    held (format own) slots s.mem n (s.mem pageMap i) + s.below own (slotsFrom (i + 1)) n pageMap := by
  unfold slotsFrom
  exact Finset.sum_eq_sum_Ico_succ_bot hi _

/-- What is left to clean after one entry is as it was. -/
theorem CleanedEntry.rest (hs : Sound true s (slotsFrom i) n pageMap) (hi : i < 512)
    (h : CleanedEntry s s₁ n pageMap i) :
    (∀ own, s₁.below own (slotsFrom (i + 1)) n pageMap = s.below own (slotsFrom (i + 1)) n pageMap) ∧
    Sound true s₁ (slotsFrom (i + 1)) n pageMap ∧
    ∀ j ∈ slotsFrom (i + 1), Every (format true) slots s.mem Usable n (s.mem pageMap j) →
      Every (format true) slots s₁.mem Usable n (s₁.mem pageMap j) := by
  have hmem : ∀ j ∈ slotsFrom (i + 1), j ∈ slotsFrom i ∧ j ≠ i := fun j hj => by
    rw [mem_slotsFrom] at hj ⊢
    omega
  have hfirst : i ∈ slotsFrom i := mem_slotsFrom.mpr ⟨Nat.le_refl i, hi⟩
  have hframe : ∀ j ∈ slotsFrom (i + 1), ∀ x ∈ held (format false) slots s.mem n (s.mem pageMap j),
      s₁.mem x = s.mem x := by
    intro j hj x hx
    obtain ⟨hj, hne⟩ := hmem j hj
    exact h.frame x (hs.tables.ne_of_mem hj hx) (hs.tables.notMem_of_mem hj hfirst hne hx)
  have hbelow : ∀ own, s₁.below own (slotsFrom (i + 1)) n pageMap = s.below own (slotsFrom (i + 1)) n pageMap := by
    refine fun own => Finset.sum_congr rfl fun j hj => ?_
    rw [h.others j (hmem j hj).2]
    exact held_congr (hframe j hj)
  refine ⟨hbelow, ⟨?_, fun f hf => ?_⟩, fun j hj hu => ?_⟩
  · rw [hbelow]
    refine Multiset.nodup_of_le (add_le_add_right ?_ _) hs.nodup
    rw [below_slotsFrom hi]
    exact Multiset.le_add_left _ _
  · rw [hbelow] at hf
    have hnodup := hs.nodup
    rw [below_slotsFrom hi, add_left_comm, Multiset.nodup_add] at hnodup
    refine (h.frees.getBit f).mpr ⟨hs.allocated f ?_, fun hm => Multiset.disjoint_left.mp hnodup.2.2 hm hf⟩
    rw [below_slotsFrom hi, add_left_comm]
    exact Multiset.mem_add.mpr (Or.inr hf)
  · rw [h.others j (hmem j hj).2]
    exact every_congr (hframe j hj) hu

/-- One entry, and those after it. -/
theorem Cleaned.step (hs : Sound true s (slotsFrom i) n pageMap) (hi : i < 512) (h : CleanedEntry s s₁ n pageMap i)
    (h' : Cleaned s₁ s' (slotsFrom (i + 1)) n pageMap) : Cleaned s s' (slotsFrom i) n pageMap := by
  obtain ⟨hbelow, -, -⟩ := h.rest hs hi
  refine ⟨?_, fun f hf hout => ?_, fun j hj => ?_⟩
  · have htrans := h.frees.trans h'.frees
    rwa [hbelow, ← below_slotsFrom hi] at htrans
  · rw [below_slotsFrom hi, Multiset.mem_add, not_or] at hout
    rw [h'.frame f hf (by rw [hbelow]; exact hout.2), h.frame f hf hout.1]
  · rw [mem_slotsFrom] at hj
    rw [h'.others j (by rw [mem_slotsFrom]; omega), h.others j (by omega)]

theorem cleanEntries_spec {cleanChild : ℕ → Machine → Machine} {k : ℕ} (hk : i + k = 512)
    (hzero : n = 0 → ∀ s frame, cleanChild frame s = s)
    (hsucc : ∀ m, n = m + 1 → ∀ s child, Sound true s slots m child →
      (∀ j ∈ slots, Every (format true) slots s.mem Usable m (s.mem child j)) →
        Cleaned s (cleanChild child s) slots m child)
    (hs : Sound true s (slotsFrom i) n pageMap)
    (hu : ∀ j ∈ slotsFrom i, Every (format true) slots s.mem Usable n (s.mem pageMap j)) :
    Cleaned s (Machine.cleanEntries cleanChild pageMap k i s) (slotsFrom i) n pageMap := by
  induction k generalizing i s with
  | zero =>
    obtain rfl : i = 512 := hk
    have hempty : s.below true (slotsFrom 512) n pageMap = 0 := by
      unfold slotsFrom
      rfl
    exact ⟨hempty ▸ .refl s, fun _ _ _ => rfl, fun _ _ => rfl⟩
  | succ k ih =>
    have hi : i < 512 := by omega
    have hfirst : i ∈ slotsFrom i := mem_slotsFrom.mpr ⟨Nat.le_refl i, hi⟩
    have hlater : ∀ j ∈ slotsFrom (i + 1), j ∈ slotsFrom i := fun j hj => by
      rw [mem_slotsFrom] at hj ⊢
      omega
    unfold Machine.cleanEntries
    by_cases hp : (s.mem pageMap i).present = true
    · rw [if_neg (not_not_intro hp)]
      generalize hs₁ : cleanChild (s.mem pageMap i).pointer s = s₁
      have hentry := cleanedEntry_of_child hs hfirst (hu i hfirst).root hp (fun hn => hs₁ ▸ hzero hn _ _)
        (fun m hm => ?_) rfl
      · obtain ⟨-, hs', hu'⟩ := hentry.rest hs hi
        exact .step hs hi hentry (ih (by omega) hs' fun j hj => hu' j hj (hu j (hlater j hj)))
      · subst hm
        subst hs₁
        exact hsucc m rfl s _ (hs.child hfirst hp) ((hu i hfirst).2 _ (child_present hp))
    · rw [if_pos hp]
      have habsent : held (format true) slots s.mem n (s.mem pageMap i) = 0 :=
        held_of_absent (child_absent (Bool.eq_false_iff.mpr hp))
      have hentry : CleanedEntry s s n pageMap i := ⟨habsent ▸ .refl s, fun _ _ _ => rfl, fun _ _ => rfl⟩
      obtain ⟨-, hs', hu'⟩ := hentry.rest hs hi
      exact .step hs hi hentry (ih (by omega) hs' fun j hj => hu' j hj (hu j (hlater j hj)))

/-- **Cleaning a page map** frees what belongs to its entries from the address on, and changes no other
frame. -/
theorem cleanPageMap_spec (hs : Sound true s (slotsFrom (addr.part (n + 1))) n pageMap)
    (hlow : ∀ level, 0 < level → level ≤ n → addr.part level = 0)
    (hu : ∀ j ∈ slotsFrom (addr.part (n + 1)), Every (format true) slots s.mem Usable n (s.mem pageMap j)) :
    Cleaned s (Machine.cleanPageMap addr (n + 1) pageMap s) (slotsFrom (addr.part (n + 1))) n pageMap := by
  induction n generalizing pageMap s with
  | zero =>
    have hpart : addr.part (0 + 1) < 512 := addr.part_lt (Nat.succ_ne_zero 0)
    exact cleanEntries_spec (Nat.add_sub_cancel' (Nat.le_of_lt hpart)) (fun _ _ _ => rfl) (fun _ hm => nomatch hm) hs hu
  | succ n ih =>
    have hpart : addr.part (n + 1 + 1) < 512 := addr.part_lt (Nat.succ_ne_zero (n + 1))
    refine cleanEntries_spec (Nat.add_sub_cancel' (Nat.le_of_lt hpart)) (fun hn => nomatch hn)
      (fun m hm s child hs' hu' => ?_) hs hu
    obtain rfl := Nat.succ.inj hm
    have hfirst := hlow (n + 1) (Nat.succ_pos n) (Nat.le_refl _)
    have hslots : slots = slotsFrom (addr.part (n + 1)) := by rw [hfirst, slots_eq]
    rw [hslots] at hs' ⊢
    exact ih hs' (fun level h1 h2 => hlow level h1 (by omega)) fun j hj => hu' j (by rwa [hslots])

end DuvuvurKernel
