import DuvuvurKernel.Lib.TableTrees
import DuvuvurKernel.Paging.PageMaps
import Mathlib.Algebra.BigOperators.Intervals

/-!
# Which frames belong to a page map

The writable bit of an entry says that the frame it points to belongs to the page map:
`CleanPageMap` frees the frames of the writable entries. Page maps below are always
pointed to by writable entries (`Usable`), and pages by writable entries only if they
are not shared. `Sound` says that these frames are in use, and for one purpose each.
-/

namespace DuvuvurKernel

open Lib.TableTrees

/-- The indexes of a page map from `i` on. -/
@[irreducible] def slotsFrom (i : ℕ) : Finset ℕ := Finset.Ico i 512

/-- The indexes of a page map. -/
@[irreducible] def slots : Finset ℕ := slotsFrom 0

/-- How the entries of a page map are read. With `own = false`, no page belongs to it. -/
def format (own : Bool) : Format ℕ PageMapEntry where
  child e := if e.present then some e.pointer else none
  owns e := own && e.writable

/-- An entry is usable by an application: for all levels but the lowest, also for writing, and it points
to a page map. -/
def Usable (n : ℕ) (e : PageMapEntry) : Prop :=
  (e.present = true → e.user = true ∧ (0 < n → e.writable = true)) ∧ (0 < n → e.hugePage = false)

/-- The page with number `k` below an entry of height `n`. -/
def pageBelow (mem : ℕ → ℕ → PageMapEntry) : ℕ → PageMapEntry → ℕ → Option ℕ
  | 0, e, _ => if e.present then some e.pointer else none
  | n + 1, e, k => if e.present then pageBelow mem n (mem e.pointer (k / 512 ^ n)) (k % 512 ^ n) else none

/-- The page with number `k` of a page map whose entries have height `n`. -/
def pageIn (mem : ℕ → ℕ → PageMapEntry) (n pageMap k : ℕ) : Option ℕ :=
  pageBelow mem n (mem pageMap (k / 512 ^ n)) (k % 512 ^ n)

/-- What belongs to the entries `T` of a page map. -/
abbrev Machine.below (s : Machine) (own : Bool) (T : Finset ℕ) (n pageMap : ℕ) : Multiset ℕ :=
  Lib.TableTrees.below (format own) slots s.mem T n pageMap

/-- The frames of a page map, as far as the entries `T` go, are in use, and for one purpose each. -/
structure Sound (own : Bool) (s : Machine) (T : Finset ℕ) (n pageMap : ℕ) : Prop where
  nodup : ({pageMap} + s.below own T n pageMap).Nodup
  allocated : ∀ f ∈ {pageMap} + s.below own T n pageMap, s.memoryManager.getBit f = true

/-- Free frames have been allocated. -/
structure Takes (s s' : Machine) (X : Multiset ℕ) : Prop where
  nodup : X.Nodup
  isFree : ∀ f ∈ X, s.memoryManager.IsFree f
  getBit : ∀ f, s'.memoryManager.getBit f = true ↔ s.memoryManager.getBit f = true ∨ f ∈ X
  rangeBegin : s'.memoryManager.rangeBegin = s.memoryManager.rangeBegin
  rangeEnd : s'.memoryManager.rangeEnd = s.memoryManager.rangeEnd
  cr3 : s'.cr3 = s.cr3

variable {own : Bool} {s s' s'' : Machine} {T : Finset ℕ} {n pageMap f i : ℕ} {X Y : Multiset ℕ}
  {e : PageMapEntry} {mem mem' : ℕ → ℕ → PageMapEntry}

/-! ### Frames in use -/

theorem mem_slotsFrom {j : ℕ} : j ∈ slotsFrom i ↔ i ≤ j ∧ j < 512 := by
  unfold slotsFrom
  exact Finset.mem_Ico

theorem slots_eq : slots = slotsFrom 0 := by
  unfold slots
  rfl

theorem mem_slots : i ∈ slots ↔ i < 512 := by
  rw [slots_eq, mem_slotsFrom]
  omega

theorem child_present (h : e.present = true) : (format own).child e = some e.pointer := if_pos h

theorem child_absent (h : e.present = false) : (format own).child e = none := by
  simp [format, h]

theorem tables_format : tables (format own) slots mem n e = held (format false) slots mem n e := rfl

theorem below_false_le : s.below false T n pageMap ≤ s.below own T n pageMap :=
  Finset.sum_le_sum fun i _ => by
    have h : tables (format own) slots s.mem n (s.mem pageMap i) ≤ _ := tables_le_held
    rwa [tables_format] at h

theorem Sound.tables (h : Sound own s T n pageMap) : Sound false s T n pageMap where
  nodup := Multiset.nodup_of_le (add_le_add_right below_false_le _) h.nodup
  allocated := fun f hf => h.allocated f (Multiset.mem_of_le (add_le_add_right below_false_le _) hf)

theorem Sound.pageMap_allocated (h : Sound own s T n pageMap) : s.memoryManager.getBit pageMap = true :=
  h.allocated _ (by simp)

theorem Sound.below_allocated (h : Sound own s T n pageMap) (hf : f ∈ s.below own T n pageMap) :
    s.memoryManager.getBit f = true :=
  h.allocated f (Multiset.mem_add.mpr (Or.inr hf))

theorem Sound.notMem (h : Sound own s T n pageMap) : pageMap ∉ s.below own T n pageMap := by
  have hd := (Multiset.nodup_add.mp h.nodup).2.2
  exact fun hm => Multiset.disjoint_left.mp hd (Multiset.mem_singleton_self _) hm

theorem Takes.notMem (h : Takes s s' X) (hf : s.memoryManager.getBit f = true) : f ∉ X := fun hx => by
  have := (h.isFree f hx).2
  rw [hf] at this
  cases this

theorem Takes.mono (h : Takes s s' X) (hf : s.memoryManager.getBit f = true) : s'.memoryManager.getBit f = true :=
  (h.getBit f).mpr (Or.inl hf)

theorem Takes.isFree_iff (h : Takes s s' X) : s'.memoryManager.IsFree f ↔ s.memoryManager.IsFree f ∧ f ∉ X := by
  have hbit := h.getBit f
  rw [BitmapMemoryManager.IsFree, BitmapMemoryManager.IsFree, h.rangeBegin, h.rangeEnd, ← Bool.not_eq_true,
    ← Bool.not_eq_true, hbit]
  tauto

theorem Takes.refl (s : Machine) : Takes s s 0 where
  nodup := Multiset.nodup_zero
  isFree := by simp
  getBit := by simp
  rangeBegin := rfl
  rangeEnd := rfl
  cr3 := rfl

theorem Takes.trans (h : Takes s s' X) (h' : Takes s' s'' Y) : Takes s s'' (X + Y) where
  nodup := Multiset.nodup_add.mpr ⟨h.nodup, h'.nodup, Multiset.disjoint_left.mpr fun hx hy =>
    (h.isFree_iff.mp (h'.isFree _ hy)).2 hx⟩
  isFree := fun f hf => (Multiset.mem_add.mp hf).elim (h.isFree f) fun hy => (h.isFree_iff.mp (h'.isFree f hy)).1
  getBit := fun f => by rw [h'.getBit, h.getBit, Multiset.mem_add, or_assoc]
  rangeBegin := h'.rangeBegin.trans h.rangeBegin
  rangeEnd := h'.rangeEnd.trans h.rangeEnd
  cr3 := h'.cr3.trans h.cr3

/-! ### One entry of a page map -/

theorem held_succ_format (h : e.present = true) : held (format own) slots s.mem (n + 1) e =
    {e.pointer} + s.below own slots n e.pointer :=
  held_succ (child_present h)

/-- What is below an entry is not the page map itself. -/
theorem Sound.ne_of_mem (h : Sound own s T n pageMap) (hi : i ∈ T) {x : ℕ}
    (hx : x ∈ held (format own) slots s.mem n (s.mem pageMap i)) : x ≠ pageMap := by
  rintro rfl
  exact h.notMem (mem_below.mpr ⟨i, hi, hx⟩)

/-- What is below an entry is not below another. -/
theorem Sound.notMem_of_mem (h : Sound own s T n pageMap) (hi : i ∈ T) {j : ℕ} (hj : j ∈ T) (hne : i ≠ j) {x : ℕ}
    (hx : x ∈ held (format own) slots s.mem n (s.mem pageMap i)) :
    x ∉ held (format own) slots s.mem n (s.mem pageMap j) :=
  Multiset.disjoint_left.mp (disjoint_of_nodup_below (Multiset.nodup_add.mp h.nodup).2.1 hi hj hne) hx

theorem Sound.child (h : Sound own s T (n + 1) pageMap) (hi : i ∈ T) (hp : (s.mem pageMap i).present = true) :
    Sound own s slots n (s.mem pageMap i).pointer := by
  have hle : {(s.mem pageMap i).pointer} + s.below own slots n (s.mem pageMap i).pointer ≤
      s.below own T (n + 1) pageMap := by
    rw [← held_succ_format hp]
    exact held_le_below hi
  have hnodup := (Multiset.nodup_add.mp h.nodup).2.1
  exact ⟨Multiset.nodup_of_le hle hnodup, fun f hf => h.below_allocated (Multiset.mem_of_le hle hf)⟩

theorem pageBelow_congr {k : ℕ} (hk : k < 512 ^ n) (h : ∀ x ∈ held (format false) slots mem n e, mem' x = mem x) :
    pageBelow mem' n e k = pageBelow mem n e k := by
  induction n generalizing e k with
  | zero => rfl
  | succ n ih =>
    rw [pageBelow, pageBelow]
    cases hp : e.present with
    | false => rfl
    | true =>
      have hslot : k / 512 ^ n ∈ slots := mem_slots.mpr (Nat.div_lt_of_lt_mul (by rwa [Nat.pow_succ] at hk))
      have hchild : (format false).child e = some e.pointer := child_present hp
      rw [if_pos rfl, if_pos rfl, h e.pointer (mem_tables_child hchild)]
      exact ih (Nat.mod_lt _ (Nat.pow_pos (by decide))) fun x hx => h x (mem_tables_of_child hchild hslot hx)

/-- The page maps below an entry are among those of the page map. -/
theorem mem_pageMaps (hi : i ∈ T) (hf : f ∈ held (format false) slots s.mem n (s.mem pageMap i)) :
    f ∈ {pageMap} + s.below false T n pageMap :=
  Multiset.mem_add.mpr (.inr (mem_below.mpr ⟨i, hi, hf⟩))

section Unchanged

variable (h : ∀ f ∈ {pageMap} + s.below false T n pageMap, s'.mem f = s.mem f)

include h

theorem pageMap_congr : s'.mem pageMap = s.mem pageMap :=
  h pageMap (Multiset.mem_add.mpr (.inl (Multiset.mem_singleton_self _)))

/-- What belongs to a page map depends on the page maps only, -/
theorem Machine.below_congr : s'.below own T n pageMap = s.below own T n pageMap :=
  Lib.TableTrees.below_congr (pageMap_congr h) fun _ hi x hx => h x (mem_pageMaps hi hx)

/-- and so does where the pages are, -/
theorem pageIn_congr {k : ℕ} (hk : k / 512 ^ n ∈ T) : pageIn s'.mem n pageMap k = pageIn s.mem n pageMap k := by
  rw [pageIn, pageIn, pageMap_congr h]
  exact pageBelow_congr (Nat.mod_lt k (Nat.pow_pos (by decide))) fun x hx => h x (mem_pageMaps hk hx)

/-- and what holds of all their entries. -/
theorem every_entry_congr {Q : ℕ → PageMapEntry → Prop}
    (hQ : ∀ i ∈ T, Every (format own) slots s.mem Q n (s.mem pageMap i)) :
    ∀ i ∈ T, Every (format own) slots s'.mem Q n (s'.mem pageMap i) := by
  intro i hi
  rw [pageMap_congr h]
  exact every_congr (fun x hx => h x (mem_pageMaps hi hx)) (hQ i hi)

end Unchanged

/-- The pages of a page map below an entry. -/
theorem pageBelow_succ {k : ℕ} (hp : e.present = true) : pageBelow mem (n + 1) e k = pageIn mem n e.pointer k := by
  rw [pageBelow, if_pos hp, pageIn]

/-- A page is pointed to by the entry, or by one of memory. -/
theorem child_of_pageBelow {k : ℕ} (h : pageBelow mem n e k = some f) :
    (format false).child e = some f ∨ ∃ c i, (format false).child (mem c i) = some f := by
  induction n generalizing e k with
  | zero => exact .inl h
  | succ n ih =>
    unfold pageBelow at h
    split at h
    · exact .inr ((ih h).elim (fun hx => ⟨_, _, hx⟩) id)
    · cases h

/-! ### A new page map or page -/

theorem pointer_setPointer {frame : ℕ} (h : frame < 2 ^ 40) : (e.setPointer frame).pointer = frame :=
  Nat.mod_eq_of_lt h

theorem BitmapMemoryManager.IsFree.lt {m : BitmapMemoryManager} {frame : ℕ} (h : m.IsFree frame) : frame < 2 ^ 40 :=
  Nat.lt_of_lt_of_le h.1.2 m.rangeEnd_le

/-- What `NewPageMap` does. -/
theorem newPageMap_cases (s : Machine) :
    (∃ frame s', s.newPageMap = (.ok frame, s') ∧ Takes s s' {frame} ∧
    s'.mem = Function.update s.mem frame fun _ => .zero) ∨
    (s.newPageMap = (.error .noEnoughMemory, s) ∧ ∀ frame, ¬ s.memoryManager.IsFree frame) := by
  rcases s.memoryManager.allocate_one with ⟨frame, h1, h2⟩ | ⟨h1, h2⟩
  · left
    have hnew : s.newPageMap = (.ok frame, Machine.setFrame ⟨s.mem, s.memoryManager.setBit frame true, s.cr3⟩ frame
        fun _ => .zero) := by
      rw [Machine.newPageMap, h1]
    refine ⟨frame, _, hnew, ⟨by simp, by simpa using h2, fun f => ?_, rfl, rfl, rfl⟩, rfl⟩
    rw [Machine.setFrame]
    by_cases hf : f = frame
    · simp [hf]
    · simp [hf]
  · right
    exact ⟨by rw [Machine.newPageMap, h1], h2⟩

theorem takes_of_newPageMap {frame : ℕ} (h : s.newPageMap = (.ok frame, s')) :
    Takes s s' {frame} ∧ s'.mem = Function.update s.mem frame fun _ => .zero := by
  rcases newPageMap_cases s with ⟨frame', s₁, hnew, hspec⟩ | ⟨hnew, -⟩
  · rw [hnew] at h
    cases h
    exact hspec
  · rw [hnew] at h
    cases h

theorem eq_of_newPageMap_error {err : Error} (h : s.newPageMap = (.error err, s')) : s' = s := by
  rcases newPageMap_cases s with ⟨frame', s₁, hnew, -⟩ | ⟨hnew, -⟩
  · rw [hnew] at h
    cases h
  · rw [hnew] at h
    cases h
    rfl

theorem Takes.of_eq (hm : s'.memoryManager = s.memoryManager) (hc : s'.cr3 = s.cr3) : Takes s s' 0 where
  nodup := Multiset.nodup_zero
  isFree := by simp
  getBit := by simp [hm]
  rangeBegin := by rw [hm]
  rangeEnd := by rw [hm]
  cr3 := hc

variable {e' : PageMapEntry}

/-- Above the lowest level, only where an entry points to matters for what belongs to it. -/
theorem held_of_pointer (hn : 0 < n) (hp : e'.present = e.present) (hptr : e'.pointer = e.pointer) :
    held (format own) slots mem n e' = held (format own) slots mem n e := by
  obtain ⟨n, rfl⟩ := Nat.exists_eq_succ_of_ne_zero (Nat.ne_of_gt hn)
  simp only [held, format, hp, hptr]

theorem held_leaf_false : held (format false) slots mem 0 e = 0 := by
  unfold held
  split <;> rfl

theorem held_leaf_of_not_writable (h : e.writable = false) : held (format own) slots mem 0 e = 0 := by
  unfold held
  split
  · rfl
  · simp [format, h]

theorem held_leaf_of_writable (hp : e.present = true) (h : e.writable = true) :
    held (format true) slots mem 0 e = {e.pointer} := by
  simp [held, format, hp, h]

theorem pageBelow_of_pointer (hp : e'.present = e.present) (hptr : e'.pointer = e.pointer) (k : ℕ) :
    pageBelow mem n e' k = pageBelow mem n e k := by
  cases n <;> simp only [pageBelow, hp, hptr]

/-- A frame of zeros is an empty page map. -/
theorem below_zero {frame : ℕ} (h : s.mem frame = fun _ => .zero) : s.below own T n frame = 0 :=
  below_of_absent fun i _ => by
    rw [h]
    rfl

end DuvuvurKernel
