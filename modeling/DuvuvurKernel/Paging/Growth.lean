import DuvuvurKernel.Paging.Ownership

/-!
# How page maps grow

`Grows` is what the operations of `paging.cpp` do to a page map: they take free frames,
for page maps below it and for pages that then belong to it, and change no other frame
that is in use. It composes (`Grows.trans`), and what is done to a page map below is
done to the one above (`Grows.lift`).
-/

namespace DuvuvurKernel

open Lib.TableTrees

/-- A page map has grown by page maps `Y` and pages `Z` that were free; of its pages, at most those with
numbers in `K` have changed. -/
structure Grows (own : Bool) (s s' : Machine) (T : Finset ℕ) (n pageMap : ℕ) (K : Set ℕ) (Y Z : Multiset ℕ) : Prop where
  takes : Takes s s' (Y + Z)
  tables : s'.below false T n pageMap = s.below false T n pageMap + Y
  owned : own = true → s'.below true T n pageMap = s.below true T n pageMap + (Y + Z)
  frame : ∀ f, f ≠ pageMap → f ∉ s.below false T n pageMap → f ∉ Y + Z → s'.mem f = s.mem f
  others : ∀ i ∉ T, s'.mem pageMap i = s.mem pageMap i
  usable : (∀ i ∈ T, Every (format own) slots s.mem Usable n (s.mem pageMap i)) →
    ∀ i ∈ T, Every (format own) slots s'.mem Usable n (s'.mem pageMap i)
  pages : ∀ k, k / 512 ^ n ∈ T → k ∉ K → pageIn s'.mem n pageMap k = pageIn s.mem n pageMap k

variable {own : Bool} {s s' s'' : Machine} {T : Finset ℕ} {n pageMap i : ℕ} {K L : Set ℕ} {Y Y' Z Z' : Multiset ℕ}
  {e' : PageMapEntry}

theorem Grows.refl : Grows own s s T n pageMap K 0 0 where
  takes := .refl s
  tables := (add_zero _).symm
  owned := fun _ => (add_zero _).symm
  frame := fun _ _ _ _ => rfl
  others := fun _ _ => rfl
  usable := id
  pages := fun _ _ _ => rfl

theorem Grows.trans (h : Grows own s s' T n pageMap K Y Z) (h' : Grows own s' s'' T n pageMap L Y' Z') :
    Grows own s s'' T n pageMap (K ∪ L) (Y + Y') (Z + Z') where
  takes := by
    rw [add_add_add_comm]
    exact h.takes.trans h'.takes
  tables := by rw [h'.tables, h.tables, add_assoc]
  owned := fun ho => by rw [h'.owned ho, h.owned ho, add_assoc, add_add_add_comm]
  frame := fun f hne hf hfX => by
    rw [add_add_add_comm, Multiset.mem_add, not_or] at hfX
    rw [h'.frame f hne ?_ hfX.2, h.frame f hne hf hfX.1]
    rw [h.tables, Multiset.mem_add, not_or]
    exact ⟨hf, fun hm => hfX.1 (Multiset.mem_add.mpr (Or.inl hm))⟩
  others := fun i hi => by rw [h'.others i hi, h.others i hi]
  usable := fun hu => h'.usable (h.usable hu)
  pages := fun k hk hkK => by
    rw [Set.mem_union, not_or] at hkK
    rw [h'.pages k hk hkK.2, h.pages k hk hkK.1]

theorem Grows.mono (h : Grows own s s' T n pageMap K Y Z) (hK : K ⊆ L) : Grows own s s' T n pageMap L Y Z :=
  { h with pages := fun k hk hkL => h.pages k hk fun hkK => hkL (hK hkK) }

/-- A page map that has grown is sound. -/
theorem Grows.sound (h : Grows own s s' T n pageMap K Y Z) (hs : Sound own s T n pageMap) :
    Sound own s' T n pageMap := by
  have hgrown : ∃ X ≤ Y + Z, s'.below own T n pageMap = s.below own T n pageMap + X := by
    cases own with
    | false => exact ⟨Y, Multiset.le_add_right _ _, h.tables⟩
    | true => exact ⟨Y + Z, le_refl _, h.owned rfl⟩
  obtain ⟨X, hX, hbelow⟩ := hgrown
  refine ⟨?_, fun f hf => ?_⟩
  · rw [hbelow, ← add_assoc, Multiset.nodup_add]
    refine ⟨hs.nodup, Multiset.nodup_of_le hX h.takes.nodup, Multiset.disjoint_left.mpr fun hf hy => ?_⟩
    exact h.takes.notMem (hs.allocated _ hf) (Multiset.mem_of_le hX hy)
  · rw [hbelow, ← add_assoc, Multiset.mem_add] at hf
    rcases hf with hf | hf
    · exact h.takes.mono (hs.allocated f hf)
    · exact (h.takes.getBit f).mpr (Or.inr (Multiset.mem_of_le hX hf))

/-- New pages are not among the page maps. -/
theorem Grows.page_notMem (h : Grows own s s' T n pageMap K Y Z) (hs : Sound own s T n pageMap) {f : ℕ} (hf : f ∈ Z) :
    f ≠ pageMap ∧ f ∉ s'.below false T n pageMap := by
  have hfree := (h.takes.isFree f (Multiset.mem_add.mpr (Or.inr hf))).2
  have hunused : ∀ x, s.memoryManager.getBit x = true → f ≠ x := by
    rintro x hx rfl
    rw [hfree] at hx
    cases hx
  refine ⟨hunused _ hs.pageMap_allocated, fun hm => ?_⟩
  rw [h.tables, Multiset.mem_add] at hm
  rcases hm with hm | hm
  · exact hunused f (hs.tables.below_allocated hm) rfl
  · exact Multiset.disjoint_left.mp (Multiset.nodup_add.mp h.takes.nodup).2.2 hm hf

/-! ### Below one entry -/

/-- **A page map grows by what is added below one of its entries**, if nothing but the page map, what was
below the entry and the new frames has changed. -/
theorem Grows.of_entry (hs : Sound own s T n pageMap) (hi : i ∈ T) (htakes : Takes s s' (Y + Z))
    (hmem : ∀ x, x ≠ pageMap → x ∉ held (format false) slots s.mem n (s.mem pageMap i) → x ∉ Y + Z → s'.mem x = s.mem x)
    (hentries : ∀ j, j ≠ i → s'.mem pageMap j = s.mem pageMap j)
    (htables : held (format false) slots s'.mem n (s'.mem pageMap i) =
      held (format false) slots s.mem n (s.mem pageMap i) + Y)
    (howned : own = true → held (format true) slots s'.mem n (s'.mem pageMap i) =
      held (format true) slots s.mem n (s.mem pageMap i) + (Y + Z))
    (husable : Every (format own) slots s.mem Usable n (s.mem pageMap i) →
      Every (format own) slots s'.mem Usable n (s'.mem pageMap i))
    (hpages : ∀ k, k / 512 ^ n = i → k ∉ K → pageBelow s'.mem n (s'.mem pageMap i) (k % 512 ^ n) =
      pageBelow s.mem n (s.mem pageMap i) (k % 512 ^ n)) :
    Grows own s s' T n pageMap K Y Z := by
  have ht := hs.tables
  have hother : ∀ j ∈ T, j ≠ i → ∀ x ∈ held (format false) slots s.mem n (s.mem pageMap j), s'.mem x = s.mem x := by
    intro j hj hne x hx
    refine hmem x (ht.ne_of_mem hj hx) (ht.notMem_of_mem hj hi hne hx) (htakes.notMem ?_)
    exact ht.below_allocated (mem_below.mpr ⟨j, hj, hx⟩)
  refine ⟨htakes, ?_, fun ho => ?_, fun f hne hf hfX => ?_, fun j hj => ?_, fun hu j hj => ?_, fun k hk hkK => ?_⟩
  · refine below_add hi htables fun j hj hne => ?_
    rw [hentries j hne]
    exact held_congr (hother j hj hne)
  · refine below_add hi (howned ho) fun j hj hne => ?_
    rw [hentries j hne]
    exact held_congr (hother j hj hne)
  · exact hmem f hne (fun hm => hf (mem_below.mpr ⟨i, hi, hm⟩)) hfX
  · exact hentries j fun hji => hj (hji ▸ hi)
  · by_cases hji : j = i
    · subst hji
      exact husable (hu j hj)
    · rw [hentries j hji]
      exact every_congr (hother j hj hji) (hu j hj)
  · rw [pageIn, pageIn]
    by_cases hki : k / 512 ^ n = i
    · rw [hki]
      exact hpages k hki hkK
    · rw [hentries _ hki]
      exact pageBelow_congr (Nat.mod_lt _ (Nat.pow_pos (by decide))) (hother _ hk hki)

/-- What is done to a page map below an entry leaves the page map itself alone. -/
theorem Grows.pageMap_eq (hs : Sound own s T (n + 1) pageMap) (hi : i ∈ T) (hp : (s.mem pageMap i).present = true)
    (h : Grows own s s' slots n (s.mem pageMap i).pointer K Y Z) : s'.mem pageMap = s.mem pageMap := by
  have hout : pageMap ∉ held (format false) slots s.mem (n + 1) (s.mem pageMap i) :=
    fun hm => hs.tables.ne_of_mem hi hm rfl
  rw [held_succ_format hp, Multiset.mem_add, Multiset.mem_singleton, not_or] at hout
  exact h.frame _ hout.1 hout.2 (h.takes.notMem hs.pageMap_allocated)

/-- **A page map grows by what one below it grows by.** -/
theorem Grows.lift (hs : Sound own s T (n + 1) pageMap) (hi : i ∈ T) (hp : (s.mem pageMap i).present = true)
    (h : Grows own s s' slots n (s.mem pageMap i).pointer K Y Z) :
    Grows own s s' T (n + 1) pageMap {k | k / 512 ^ (n + 1) = i ∧ k % 512 ^ (n + 1) ∈ K} Y Z := by
  have hself := h.pageMap_eq hs hi hp
  refine .of_entry hs hi h.takes (fun x _ hx hxX => ?_) (fun j _ => by rw [hself]) ?_ (fun ho => ?_) (fun hu => ?_)
    fun k hki hkK => ?_
  · rw [held_succ_format hp, Multiset.mem_add, Multiset.mem_singleton, not_or] at hx
    exact h.frame x hx.1 hx.2 hxX
  · rw [hself, held_succ_format hp, held_succ_format hp, h.tables, add_assoc]
  · rw [hself, held_succ_format hp, held_succ_format hp, h.owned ho, add_assoc]
  · have hchild : (format own).child (s.mem pageMap i) = some (s.mem pageMap i).pointer := child_present hp
    rw [hself]
    refine ⟨hu.1, fun c hc => ?_⟩
    rw [hchild, Option.some.injEq] at hc
    subst hc
    exact h.usable (hu.2 _ hchild)
  · have hmod : k % 512 ^ (n + 1) < 512 ^ (n + 1) := Nat.mod_lt _ (Nat.pow_pos (by decide))
    have hslot : k % 512 ^ (n + 1) / 512 ^ n ∈ slots :=
      mem_slots.mpr (Nat.div_lt_of_lt_mul (by rwa [Nat.pow_succ] at hmod))
    rw [hself, pageBelow_succ hp, pageBelow_succ hp]
    exact h.pages _ hslot fun hkK' => hkK ⟨hki, hkK'⟩

/-- The bits of a present entry are set. -/
theorem Grows.flags (hs : Sound own s T n pageMap) (hi : i ∈ T) (hn : own = true → 0 < n)
    (hp : e'.present = (s.mem pageMap i).present) (hptr : e'.pointer = (s.mem pageMap i).pointer)
    (hhuge : e'.hugePage = (s.mem pageMap i).hugePage) (hu : e'.user = true) (hw : 0 < n → e'.writable = true) :
    Grows own s (s.setEntry pageMap i e') T n pageMap ∅ 0 0 := by
  have hmem : ∀ x, x ≠ pageMap → (s.setEntry pageMap i e').mem x = s.mem x := fun x hx => Function.update_of_ne hx _ _
  have hself : ∀ j, (s.setEntry pageMap i e').mem pageMap j = Function.update (s.mem pageMap) i e' j := fun j => by
    simp [Machine.setEntry]
  have hframe : ∀ x ∈ held (format false) slots s.mem n (s.mem pageMap i), (s.setEntry pageMap i e').mem x = s.mem x :=
    fun x hx => hmem x (hs.tables.ne_of_mem hi hx)
  have hheld : ∀ own', 0 < n → held (format own') slots (s.setEntry pageMap i e').mem n e' =
      held (format own') slots s.mem n (s.mem pageMap i) := fun own' hn => by
    rw [held_of_pointer hn hp hptr]
    exact held_congr hframe
  refine .of_entry hs hi (Takes.of_eq rfl rfl) (fun x hx _ _ => hmem x hx) (fun j hj => ?_) ?_ (fun ho => ?_)
    (fun hev => ?_) fun k _ _ => ?_
  · rw [hself, Function.update_of_ne hj]
  · rw [hself, Function.update_self, add_zero]
    rcases Nat.eq_zero_or_pos n with rfl | hn
    · rw [held_leaf_false, held_leaf_false]
    · exact hheld false hn
  · rw [hself, Function.update_self, add_zero, add_zero]
    exact hheld true (hn ho)
  · rw [hself, Function.update_self]
    have husable : Usable n e' := ⟨fun _ => ⟨hu, hw⟩, fun hn => hhuge.trans (hev.root.2 hn)⟩
    cases n with
    | zero => exact husable
    | succ n =>
      have hchild : (format own).child e' = (format own).child (s.mem pageMap i) := by simp only [format, hp, hptr]
      have hev' := every_congr hframe hev
      exact ⟨husable, fun c hc => hev'.2 c (hchild ▸ hc)⟩
  · rw [hself, Function.update_self, pageBelow_of_pointer hp hptr]
    exact pageBelow_congr (Nat.mod_lt _ (Nat.pow_pos (by decide))) hframe

/-- An entry of height `n` has been set to a new frame, which is zero if it is a page map. -/
structure NewEntry (s s' : Machine) (n pageMap i : ℕ) (e' : PageMapEntry) (frame : ℕ) : Prop where
  takes : Takes s s' {frame}
  pageMap_mem : ∀ j, s'.mem pageMap j = Function.update (s.mem pageMap) i e' j
  frame_mem : 0 < n → s'.mem frame = fun _ => .zero
  others : ∀ x, x ≠ pageMap → x ≠ frame → s'.mem x = s.mem x

theorem Takes.ne (h : Takes s s' {i}) {x : ℕ} (hx : s.memoryManager.getBit x = true) : x ≠ i := by
  rintro rfl
  exact h.notMem hx (Multiset.mem_singleton_self _)

/-- The entry is set to the result of `NewPageMap`. -/
theorem NewEntry.of_newPageMap {s₁ : Machine} {frame : ℕ} (htakes : Takes s s₁ {frame})
    (hmem : s₁.mem = Function.update s.mem frame fun _ => .zero) (hused : s.memoryManager.getBit pageMap = true)
    (hs' : s' = s₁.setEntry pageMap i e') : NewEntry s s' n pageMap i e' frame := by
  have hne := htakes.ne hused
  have hsame : Takes s₁ s' 0 := .of_eq (by rw [hs']; rfl) (by rw [hs']; rfl)
  have hframe : ∀ x, x ≠ pageMap → s'.mem x = s₁.mem x := fun x hx => by
    rw [hs']
    exact Function.update_of_ne hx _ _
  have htakes' := htakes.trans hsame
  rw [add_zero] at htakes'
  refine ⟨htakes', fun j => ?_, fun _ => ?_, fun x hx hxf => ?_⟩
  · have hself : s'.mem pageMap = Function.update (s₁.mem pageMap) i e' := by
      rw [hs']
      exact Function.update_self _ _ _
    rw [hself, hmem, Function.update_of_ne hne]
  · rw [hframe frame hne.symm, hmem, Function.update_self]
  · rw [hframe x hx, hmem, Function.update_of_ne hxf]

/-- A new frame takes the place of an absent entry, or of a page that does not belong to the page map. -/
theorem Grows.new (hs : Sound own s T n pageMap) (hi : i ∈ T) {frame : ℕ}
    (hold : (s.mem pageMap i).present = false ∨ n = 0 ∧ (own = true → (s.mem pageMap i).writable = false))
    (hnew : NewEntry s s' n pageMap i e' frame) (hp : e'.present = true) (hptr : e'.pointer = frame)
    (hhuge : Usable n (s.mem pageMap i) → 0 < n → e'.hugePage = false)
    (hu : Usable n (s.mem pageMap i) → e'.user = true) (hw : 0 < n → e'.writable = true)
    (how : own = true → e'.writable = true) :
    ∃ Y Z, Y + Z = {frame} ∧ (n = 0 → Z = {frame}) ∧ (0 < n → Z = 0) ∧
        Grows own s s' T n pageMap {k | n = 0 ∧ k = i} Y Z := by
  obtain ⟨htakes, hself, hzero, hmem⟩ := hnew
  have hzero' : ∀ own', (own' = true → own = true) → held (format own') slots s.mem n (s.mem pageMap i) = 0 := by
    intro own' hle
    rcases hold with h | ⟨rfl, h⟩
    · exact held_of_absent (child_absent h)
    · cases own' with
      | false => exact held_leaf_false
      | true => exact held_leaf_of_not_writable (h (hle rfl))
  have hheld : ∀ own', 0 < n → held (format own') slots s'.mem n e' = {frame} := fun own' hn => by
    obtain ⟨m, rfl⟩ := Nat.exists_eq_succ_of_ne_zero (Nat.ne_of_gt hn)
    rw [held_succ_format hp, hptr, below_zero (hzero hn), add_zero]
  have hYZ : ∃ Y Z : Multiset ℕ, Y + Z = {frame} ∧ (n = 0 → Z = {frame}) ∧ (0 < n → Z = 0) ∧
      held (format false) slots s'.mem n e' = Y := by
    rcases Nat.eq_zero_or_pos n with rfl | hn
    · exact ⟨0, {frame}, zero_add _, fun _ => rfl, fun h => absurd h (Nat.lt_irrefl 0), held_leaf_false⟩
    · exact ⟨{frame}, 0, add_zero _, fun h => absurd h (Nat.ne_of_gt hn), fun _ => rfl, hheld false hn⟩
  obtain ⟨Y, Z, hX, hpage, htable, hY⟩ := hYZ
  refine ⟨Y, Z, hX, hpage, htable, .of_entry hs hi (hX ▸ htakes) (fun x hx _ hxf => hmem x hx ?_)
    (fun j hj => ?_) ?_ (fun ho => ?_)
    (fun hev => ?_) fun k hki hkK => ?_⟩
  · rw [hX, Multiset.mem_singleton] at hxf
    exact hxf
  · rw [hself, Function.update_of_ne hj]
  · rw [hself, Function.update_self, hzero' false (fun h => (Bool.false_ne_true h).elim), zero_add, hY]
  · rw [hself, Function.update_self, hzero' true (fun _ => ho), zero_add, hX]
    rcases Nat.eq_zero_or_pos n with rfl | hn
    · rw [held_leaf_of_writable hp (how ho), hptr]
    · exact hheld true hn
  · rw [hself, Function.update_self]
    have husable : Usable n e' := ⟨fun _ => ⟨hu hev.root, hw⟩, hhuge hev.root⟩
    cases n with
    | zero => exact husable
    | succ n =>
      refine ⟨husable, fun c hc j _ => ?_⟩
      rw [child_present hp, hptr, Option.some.injEq] at hc
      subst hc
      rw [hzero (Nat.succ_pos n)]
      exact every_of_absent rfl ⟨fun h => (Bool.false_ne_true h).elim, fun _ => rfl⟩
  · rw [hself, Function.update_self]
    cases n with
    | zero =>
      have hk : k / 512 ^ 0 = k := by rw [Nat.pow_zero, Nat.div_one]
      exact absurd ⟨rfl, hk.symm.trans hki⟩ hkK
    | succ n =>
      have habsent := hold.resolve_right fun h => absurd h.1 (Nat.succ_ne_zero n)
      rw [pageBelow_succ hp, hptr, pageBelow, habsent, pageIn, hzero (Nat.succ_pos n)]
      cases n <;> rfl

end DuvuvurKernel
