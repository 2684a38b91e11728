import DuvuvurKernel.Paging.PageFault

/-!
# Entries of pages

The entry of a page is at the end of a path of slots, one for each level. `leafIn` finds it, and
where the page maps on the way are open (`Opened`), the processor's walk finds the same entry
(`walk_of_opened`). What is done below one entry of a page map leaves the entries of the pages
below the others as they are.
-/

namespace DuvuvurKernel

open Lib.TableTrees

/-- The slots on the way from an entry of height `n` to the page with number `k`. -/
def slotsTo : ℕ → ℕ → List ℕ
  | 0, _ => []
  | n + 1, k => k / 512 ^ n :: slotsTo n (k % 512 ^ n)

/-- The entry of the page with number `k` below an entry of height `n`, if the page is there. -/
def leafBelow (mem : ℕ → ℕ → PageMapEntry) (n : ℕ) (e : PageMapEntry) (k : ℕ) : Option PageMapEntry :=
  (follow (format false) mem e (slotsTo n k)).filter fun e => e.present

/-- The entry of the page with number `k` of a page map whose entries have height `n`. -/
def leafIn (mem : ℕ → ℕ → PageMapEntry) (n pageMap k : ℕ) : Option PageMapEntry :=
  leafBelow mem n (mem pageMap (k / 512 ^ n)) (k % 512 ^ n)

/-- The entries of the page maps on the way to a page are present, and open to user mode, also for
writing. -/
def Opened (mem : ℕ → ℕ → PageMapEntry) : ℕ → PageMapEntry → ℕ → Prop
  | 0, _, _ => True
  | n + 1, e, k => (e.present = true ∧ e.user = true ∧ e.writable = true ∧ e.hugePage = false) ∧
      Opened mem n (mem e.pointer (k / 512 ^ n)) (k % 512 ^ n)

/-- The same for a page of a page map. -/
def OpenedIn (mem : ℕ → ℕ → PageMapEntry) (n pageMap k : ℕ) : Prop :=
  Opened mem n (mem pageMap (k / 512 ^ n)) (k % 512 ^ n)

/-- An entry is not one of a huge page. -/
def NoHuge (n : ℕ) (e : PageMapEntry) : Prop := 0 < n → e.hugePage = false

/-- The entries of a page map are none of huge pages. -/
abbrev Plain (s : Machine) (T : Finset ℕ) (n pageMap : ℕ) : Prop :=
  ∀ i ∈ T, Every (format false) slots s.mem NoHuge n (s.mem pageMap i)

variable {mem mem' : ℕ → ℕ → PageMapEntry} {s s' : Machine} {T : Finset ℕ} {n pageMap i j k frame : ℕ}
    {e e' : PageMapEntry}

/-! ### One level -/

theorem leafBelow_zero : leafBelow mem 0 e k = if e.present then some e else none := by
  simp [leafBelow, slotsTo, follow, Option.filter]

theorem leafBelow_succ (hp : e.present = true) : leafBelow mem (n + 1) e k = leafIn mem n e.pointer k := by
  have hchild : (format false).child e = some e.pointer := child_present hp
  rw [leafBelow, slotsTo, follow, hchild, Option.bind_some]
  rfl

theorem leafBelow_absent (hp : e.present = false) : leafBelow mem n e k = none := by
  cases n with
  | zero => simp [leafBelow_zero, hp]
  | succ n =>
    have hchild : (format false).child e = none := child_absent hp
    rw [leafBelow, slotsTo, follow, hchild, Option.bind_none, Option.filter_none]

/-- A new page map has no pages. -/
theorem leafIn_zero (h : mem frame = fun _ => .zero) : leafIn mem n frame k = none := by
  rw [leafIn, h]
  exact leafBelow_absent rfl

theorem leafIn_leaf (hp : (mem pageMap k).present = true) : leafIn mem 0 pageMap k = some (mem pageMap k) := by
  rw [leafIn, Nat.pow_zero, Nat.div_one, leafBelow_zero, if_pos hp]

/-- The entry on the way to a page is present. -/
theorem present_of_leafIn (hk : k / 512 ^ n = i) (h : leafIn mem n pageMap k = some e) :
    (mem pageMap i).present = true := by
  by_contra habs
  rw [leafIn, hk, leafBelow_absent (Bool.eq_false_iff.mpr habs)] at h
  cases h

/-- The page is where its entry points to. -/
theorem pageBelow_eq_leafBelow : pageBelow mem n e k = (leafBelow mem n e k).map PageMapEntry.pointer := by
  induction n generalizing e k with
  | zero =>
    rw [leafBelow_zero, pageBelow]
    split <;> rfl
  | succ n ih =>
    cases hp : e.present with
    | false =>
      rw [leafBelow_absent hp, pageBelow, hp]
      rfl
    | true =>
      rw [leafBelow_succ hp, pageBelow_succ hp]
      exact ih

theorem pageIn_eq_leafIn : pageIn mem n pageMap k = (leafIn mem n pageMap k).map PageMapEntry.pointer :=
  pageBelow_eq_leafBelow

/-- The processor finds the page through its entry. -/
theorem walk_of_opened (h : Opened mem n e k) : walk mem n e k =
    (leafBelow mem n e k).map fun e => ⟨e.pointer, e.writable, e.user⟩ := by
  induction n generalizing e k with
  | zero =>
    rw [leafBelow_zero, walk]
    split <;> rfl
  | succ n ih =>
    obtain ⟨⟨hp, hu, hw, hh⟩, hrest⟩ := h
    rw [walk_succ hp hh, ih hrest, leafBelow_succ hp, leafIn, Option.map_map]
    congr 1
    funext p
    simp [hu, hw]

/-- Without huge pages the processor finds the page where its entry points to. -/
theorem walk_plain (hplain : Every (format false) slots mem NoHuge n e) (hk : k < 512 ^ n) :
    (walk mem n e k).map Page.frame = (leafBelow mem n e k).map PageMapEntry.pointer := by
  induction n generalizing e k with
  | zero =>
    rw [leafBelow_zero, walk]
    split <;> rfl
  | succ n ih =>
    cases hp : e.present with
    | false =>
      rw [walk_absent hp, leafBelow_absent hp]
      rfl
    | true =>
      have hchild := hplain.2 _ (child_present hp) _ (slot_mem hk)
      rw [walk_succ hp (hplain.1 (Nat.succ_pos n)), leafBelow_succ hp, leafIn,
        ← ih hchild (Nat.mod_lt k (Nat.pow_pos (by decide))), Option.map_map]
      rfl

/-- The processor finds no page without an entry. -/
theorem walk_eq_none_of_leaf (hplain : Every (format false) slots mem NoHuge n e) (hk : k < 512 ^ n)
    (h : leafBelow mem n e k = none) : walk mem n e k = none := by
  have hw := walk_plain hplain hk
  rwa [h, Option.map_none, Option.map_eq_none_iff] at hw

/-! ### What does not change -/

theorem slotsTo_spec (hk : k < 512 ^ n) : (slotsTo n k).length = n ∧ ∀ i ∈ slotsTo n k, i ∈ slots := by
  induction n generalizing k with
  | zero => exact ⟨rfl, fun i hi => absurd hi List.not_mem_nil⟩
  | succ n ih =>
    obtain ⟨hlength, hslots⟩ := ih (Nat.mod_lt k (Nat.pow_pos (by decide : 0 < 512)))
    refine ⟨by rw [slotsTo, List.length_cons, hlength], fun i hi => ?_⟩
    rcases List.mem_cons.mp hi with rfl | hi
    · exact slot_mem hk
    · exact hslots i hi

theorem leafBelow_congr (hk : k < 512 ^ n) (h : ∀ x ∈ held (format false) slots mem n e, mem' x = mem x) :
    leafBelow mem' n e k = leafBelow mem n e k := by
  obtain ⟨hlength, hslots⟩ := slotsTo_spec hk
  rw [leafBelow, leafBelow, follow_congr (Nat.le_of_eq hlength) hslots h]

theorem opened_congr (hk : k < 512 ^ n) (h : ∀ x ∈ held (format false) slots mem n e, mem' x = mem x)
    (ho : Opened mem n e k) : Opened mem' n e k := by
  induction n generalizing e k with
  | zero => trivial
  | succ n ih =>
    obtain ⟨hroot, hrest⟩ := ho
    have hchild : (format false).child e = some e.pointer := child_present hroot.1
    refine ⟨hroot, ?_⟩
    rw [h e.pointer (mem_tables_child hchild)]
    exact ih (Nat.mod_lt _ (Nat.pow_pos (by decide))) (fun x hx => h x (mem_tables_of_child hchild (slot_mem hk) hx))
      hrest

/-- Below the other entries nothing has changed, if only the page map, what is below one entry, and frames that were
not in use have. -/
theorem Sound.unchanged (hs : Sound false s T n pageMap) (hi : i ∈ T) (hj : j ∈ T) (hne : j ≠ i)
    (hmem : ∀ x, x ≠ pageMap → x ∉ held (format false) slots s.mem n (s.mem pageMap i) →
      s.memoryManager.getBit x = true → s'.mem x = s.mem x) :
    ∀ x ∈ held (format false) slots s.mem n (s.mem pageMap j), s'.mem x = s.mem x := by
  intro x hx
  refine hmem x (hs.ne_of_mem hj hx) (hs.notMem_of_mem hj hi hne hx) ?_
  exact hs.below_allocated (mem_below.mpr ⟨j, hj, hx⟩)

end DuvuvurKernel
