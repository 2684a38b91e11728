import DuvuvurKernel.Paging.Accounts
import DuvuvurKernel.Paging.Leaves

/-!
# Read-only copies of page maps

What `CopyPageMaps` makes of any page maps without huge pages, whatever their entries allow: the
copy shares the pages, with the same flags but for writing, and has page maps of its own
(`copyPageMaps_readOnly`).
-/

namespace DuvuvurKernel

open Lib.TableTrees

/-- The page, not to be written to. -/
def Page.readOnly (p : Page) : Page := { p with writable := false }

/-- Page maps `Y`, which were free, have been added to a page map. -/
structure Adds (s s' : Machine) (T : Finset ℕ) (n pageMap : ℕ) (Y : Multiset ℕ) : Prop where
  takes : Takes s s' Y
  tables : s'.below false T n pageMap = s.below false T n pageMap + Y
  frame : ∀ f, f ≠ pageMap → f ∉ s.below false T n pageMap → f ∉ Y → s'.mem f = s.mem f

/-- Page maps without huge pages, and where to copy them to. -/
structure Source (s : Machine) (T : Finset ℕ) (n dest src : ℕ) : Prop where
  sound : Sound false s T n dest
  inUse : ∀ f ∈ {src} + s.below false T n src, s.memoryManager.getBit f = true
  apart : ∀ f ∈ {src} + s.below false T n src, f ≠ dest ∧ f ∉ s.below false T n dest
  plain : Plain s T n src

/-- The page with number `k` of a page map, in the memory `mem'`, is that of another one in `mem`, but not to be written
to. -/
structure ReadOnlyPage (mem mem' : ℕ → ℕ → PageMapEntry) (n dest src k : ℕ) : Prop where
  leaf : leafIn mem' n dest k = (leafIn mem n src k).map fun e => e.setWritable false
  walk : walk mem' n (mem' dest (k / 512 ^ n)) (k % 512 ^ n) =
    (walk mem n (mem src (k / 512 ^ n)) (k % 512 ^ n)).map Page.readOnly

/-- What copying the entries from `i` on does, whatever the result. -/
structure CopiesReadOnly (s s' : Machine) (T : Finset ℕ) (n dest src i : ℕ) (r : Except Error Unit) : Prop where
  adds : ∃ Y, Adds s s' T n dest Y
  entries : ∀ j < i, s'.mem dest j = s.mem dest j
  before : ∀ j ∈ T, j < i → ∀ x ∈ held (format false) slots s.mem n (s.mem dest j), s'.mem x = s.mem x
  plain : Plain s T n dest → Plain s' T n dest
  pages : r = .ok () → ∀ k, i ≤ k / 512 ^ n → k < 512 ^ (n + 1) → ReadOnlyPage s.mem s'.mem n dest src k

variable {s s' s₁ : Machine} {T : Finset ℕ} {n pageMap dest src i k : ℕ} {Y Y' : Multiset ℕ} {e e' : PageMapEntry}
  {r : Except Error Unit} {mem mem' : ℕ → ℕ → PageMapEntry}

/-! ### Adding page maps -/

theorem Adds.refl : Adds s s T n pageMap 0 where
  takes := .refl s
  tables := (add_zero _).symm
  frame := fun _ _ _ _ => rfl

theorem Adds.trans (h : Adds s s' T n pageMap Y) (h' : Adds s' s₁ T n pageMap Y') : Adds s s₁ T n pageMap (Y + Y') where
  takes := h.takes.trans h'.takes
  tables := by rw [h'.tables, h.tables, add_assoc]
  frame := by
    intro f hne hf hY
    rw [Multiset.mem_add, not_or] at hY
    rw [h'.frame f hne ?_ hY.2, h.frame f hne hf hY.1]
    rw [h.tables, Multiset.mem_add, not_or]
    exact ⟨hf, hY.1⟩

theorem Adds.sound (h : Adds s s' T n pageMap Y) (hs : Sound false s T n pageMap) : Sound false s' T n pageMap := by
  refine ⟨?_, fun f hf => ?_⟩
  · rw [h.tables, ← add_assoc, Multiset.nodup_add]
    refine ⟨hs.nodup, h.takes.nodup, Multiset.disjoint_left.mpr fun hf hy => ?_⟩
    exact h.takes.notMem (hs.allocated _ hf) hy
  · rw [h.tables, ← add_assoc, Multiset.mem_add] at hf
    rw [h.takes.getBit]
    exact hf.imp_left (hs.allocated f)

/-- What is added below one entry. -/
theorem Adds.of_entry (hs : Sound false s T n pageMap) (hi : i ∈ T) (htakes : Takes s s' Y)
    (hmem : ∀ x, x ≠ pageMap → x ∉ held (format false) slots s.mem n (s.mem pageMap i) → x ∉ Y → s'.mem x = s.mem x)
    (hentries : ∀ j, j ≠ i → s'.mem pageMap j = s.mem pageMap j)
    (htables : held (format false) slots s'.mem n (s'.mem pageMap i) =
    held (format false) slots s.mem n (s.mem pageMap i) + Y) :
    Adds s s' T n pageMap Y ∧
      ∀ j ∈ T, j ≠ i → ∀ x ∈ held (format false) slots s.mem n (s.mem pageMap j), s'.mem x = s.mem x := by
  have hother : ∀ j ∈ T, j ≠ i → ∀ x ∈ held (format false) slots s.mem n (s.mem pageMap j), s'.mem x = s.mem x := by
    intro j hj hne
    exact hs.unchanged hi hj hne fun x hx hout hused => hmem x hx hout (htakes.notMem hused)
  refine ⟨⟨htakes, ?_, fun f hne hf hY => ?_⟩, hother⟩
  · refine below_add hi htables fun j hj hne => ?_
    rw [hentries j hne]
    exact held_congr (hother j hj hne)
  · exact hmem f hne (fun hm => hf (mem_below.mpr ⟨i, hi, hm⟩)) hY

/-! ### The page maps copied from -/

theorem Source.unchanged (h : Source s T n dest src) (ha : Adds s s' T n dest Y) :
    ∀ f ∈ {src} + s.below false T n src, s'.mem f = s.mem f := by
  intro f hf
  obtain ⟨hne, hout⟩ := h.apart f hf
  exact ha.frame f hne hout (ha.takes.notMem (h.inUse f hf))

theorem Source.src_eq (h : Source s T n dest src) (ha : Adds s s' T n dest Y) : s'.mem src = s.mem src :=
  pageMap_congr (h.unchanged ha)

theorem Source.held_unchanged (h : Source s T n dest src) (ha : Adds s s' T n dest Y) (hi : i ∈ T) :
    ∀ x ∈ held (format false) slots s.mem n (s.mem src i), s'.mem x = s.mem x :=
  fun x hx => h.unchanged ha x (mem_pageMaps hi hx)

theorem Source.below_eq (h : Source s T n dest src) (ha : Adds s s' T n dest Y) :
    s'.below false T n src = s.below false T n src :=
  Machine.below_congr (h.unchanged ha)

theorem Source.adds (h : Source s T n dest src) (ha : Adds s s' T n dest Y) : Source s' T n dest src := by
  have hbelow := h.below_eq ha
  constructor
  · exact ha.sound h.sound
  · intro f hf
    rw [hbelow] at hf
    exact ha.takes.mono (h.inUse f hf)
  · intro f hf
    rw [hbelow] at hf
    obtain ⟨hne, hout⟩ := h.apart f hf
    refine ⟨hne, ?_⟩
    rw [ha.tables, Multiset.mem_add, not_or]
    exact ⟨hout, ha.takes.notMem (h.inUse f hf)⟩
  · exact every_entry_congr (h.unchanged ha) h.plain

/-- The copy of a page is one also of the page before the copying. -/
theorem ReadOnlyPage.of_source (h : Source s T n dest src) (ha : Adds s s' T n dest Y) (hk : k / 512 ^ n ∈ T)
    (hp : ReadOnlyPage s'.mem mem' n dest src k) : ReadOnlyPage s.mem mem' n dest src k := by
  have hmod := Nat.mod_lt k (Nat.pow_pos (n := n) (by decide : 0 < 512))
  have hheld := h.held_unchanged ha hk
  have hleaf : leafIn s'.mem n src k = leafIn s.mem n src k := by
    rw [leafIn, h.src_eq ha]
    exact leafBelow_congr hmod hheld
  have hwalk := hp.walk
  rw [h.src_eq ha, walk_congr hmod hheld] at hwalk
  exact ⟨hleaf ▸ hp.leaf, hwalk⟩

/-! ### One entry, and those after it -/

theorem CopiesReadOnly.refl : CopiesReadOnly s s T n dest src 512 r where
  adds := ⟨0, .refl⟩
  entries := fun _ _ => rfl
  before := fun _ _ _ _ _ => rfl
  plain := id
  pages := fun _ k hk hlt => by
    have hdiv : k / 512 ^ n < 512 := Nat.div_lt_of_lt_mul (by rwa [Nat.pow_succ] at hlt)
    omega

/-- What is done below the entry `i`. -/
structure CopiesEntry (s s' : Machine) (T : Finset ℕ) (n dest src i : ℕ) (r : Except Error Unit) : Prop where
  adds : ∃ Y, Adds s s' T n dest Y
  entries : ∀ j, j ≠ i → s'.mem dest j = s.mem dest j
  others : ∀ j ∈ T, j ≠ i → ∀ x ∈ held (format false) slots s.mem n (s.mem dest j), s'.mem x = s.mem x
  plain : Plain s T n dest → Every (format false) slots s'.mem NoHuge n (s'.mem dest i)
  pages : r = .ok () → ∀ k, k / 512 ^ n = i → ReadOnlyPage s.mem s'.mem n dest src k

theorem CopiesEntry.plain_all (h : CopiesEntry s s' T n dest src i r) (hplain : Plain s T n dest) :
    Plain s' T n dest := by
  intro j hj
  by_cases hji : j = i
  · rw [hji]
    exact h.plain hplain
  · rw [h.entries j hji]
    exact every_congr (h.others j hj hji) (hplain j hj)

theorem CopiesEntry.refl (hi : i ∈ T) (hdest : (s.mem dest i).present = false) (hsrc : (s.mem src i).present = false) :
    CopiesEntry s s T n dest src i r where
  adds := ⟨0, .refl⟩
  entries := fun _ _ => rfl
  others := fun _ _ _ _ _ => rfl
  plain := fun hplain => hplain i hi
  pages := by
    intro _ k hk
    refine ⟨?_, ?_⟩
    · rw [leafIn, leafIn, hk, leafBelow_absent hdest, leafBelow_absent hsrc]
      rfl
    · rw [hk, walk_absent hdest, walk_absent hsrc]
      rfl

theorem CopiesEntry.step (hc : Source s T n dest src) (hT : ∀ j, i ≤ j → j < 512 → j ∈ T)
    (h : CopiesEntry s s₁ T n dest src i (.ok ())) (h' : CopiesReadOnly s₁ s' T n dest src (i + 1) r) :
    CopiesReadOnly s s' T n dest src i r := by
  obtain ⟨Y, hY⟩ := h.adds
  obtain ⟨Y', hY'⟩ := h'.adds
  have hentries : ∀ j < i, s'.mem dest j = s.mem dest j := fun j hj => by
    rw [h'.entries j (Nat.lt_succ_of_lt hj), h.entries j (Nat.ne_of_lt hj)]
  refine ⟨⟨Y + Y', hY.trans hY'⟩, hentries, fun j hj hji x hx => ?_, fun hplain => h'.plain (h.plain_all hplain),
    fun hr k hk hlt => ?_⟩
  · have hother := h.others j hj (Nat.ne_of_lt hji)
    rw [h'.before j hj (Nat.lt_succ_of_lt hji) x ?_, hother x hx]
    rwa [h.entries j (Nat.ne_of_lt hji), held_congr hother]
  · have hslot : k / 512 ^ n ∈ T := hT _ hk (Nat.div_lt_of_lt_mul (by rwa [Nat.pow_succ] at hlt))
    rcases Nat.lt_or_eq_of_le hk with hgt | heq
    · exact (h'.pages hr k hgt hlt).of_source hc hY hslot
    · -- The page is below the entry that has been copied first.
      obtain ⟨hleaf, hwalk⟩ := h.pages rfl k heq.symm
      have hlast : k / 512 ^ n < i + 1 := by omega
      have hmod := Nat.mod_lt k (Nat.pow_pos (n := n) (by decide : 0 < 512))
      have hheld := h'.before _ hslot hlast
      refine ⟨?_, ?_⟩
      · rw [leafIn, h'.entries _ hlast, leafBelow_congr hmod hheld]
        exact hleaf
      · rw [h'.entries _ hlast, walk_congr hmod hheld]
        exact hwalk

/-! ### The lowest level -/

theorem copiesEntry_page (hs : Sound false s T 0 dest) (hi : i ∈ T) (hp : (s.mem src i).present = true) :
    CopiesEntry s (s.setEntry dest i ((s.mem src i).setWritable false)) T 0 dest src i r := by
  have hmem : ∀ x, x ≠ dest → (s.setEntry dest i ((s.mem src i).setWritable false)).mem x = s.mem x :=
    fun x hx => Function.update_of_ne hx _ _
  have hentries : ∀ j, j ≠ i → (s.setEntry dest i ((s.mem src i).setWritable false)).mem dest j = s.mem dest j :=
    fun j hj => by simp [Machine.setEntry, hj]
  have htakes : Takes s (s.setEntry dest i ((s.mem src i).setWritable false)) 0 := .of_eq rfl rfl
  obtain ⟨hadds, hothers⟩ := Adds.of_entry hs hi htakes (fun x hx _ _ => hmem x hx) hentries (by
    rw [held_leaf_false, held_leaf_false, add_zero])
  refine ⟨⟨0, hadds⟩, hentries, hothers, fun _ h0 => absurd h0 (Nat.lt_irrefl 0), fun _ k hk => ?_⟩
  have hself := s.setEntry_mem dest i ((s.mem src i).setWritable false)
  refine ⟨?_, ?_⟩
  · rw [leafIn, leafIn, hk, hself, leafBelow_zero, leafBelow_zero, if_pos hp, if_pos (by exact hp)]
    rfl
  · rw [hk, hself, walk, walk, if_pos hp, if_pos (by exact hp)]
    rfl

theorem copyPages_readOnly (hk : i + k = 512) (hc : Source s T 0 dest src) (hT : ∀ j, i ≤ j → j < 512 → j ∈ T)
    (habsent : ∀ j, i ≤ j → j < 512 → (s.mem dest j).present = false) :
    CopiesReadOnly s (Machine.copyPages dest src k i s) T 0 dest src i (.ok ()) := by
  induction k generalizing i s with
  | zero =>
    obtain rfl : i = 512 := hk
    exact .refl
  | succ k ih =>
    have hi := hT i (Nat.le_refl _) (by omega)
    unfold Machine.copyPages
    by_cases hp : (s.mem src i).present = true
    · rw [if_neg (not_not_intro hp)]
      have hentry : CopiesEntry s (s.setEntry dest i ((s.mem src i).setWritable false)) T 0 dest src i (.ok ()) :=
        copiesEntry_page hc.sound hi hp
      obtain ⟨Y, hY⟩ := hentry.adds
      refine hentry.step hc hT (ih (by omega) (hc.adds hY) (fun j h1 h2 => hT j (by omega) h2) fun j hj hlt => ?_)
      rw [hentry.entries j (by omega)]
      exact habsent j (by omega) hlt
    · rw [if_pos hp]
      exact (CopiesEntry.refl hi (habsent i (Nat.le_refl _) (by omega)) (Bool.eq_false_iff.mpr hp)).step hc hT
        (ih (by omega) hc (fun j h1 h2 => hT j (by omega) h2) fun j hj => habsent j (by omega))

/-! ### The other levels -/

/-- The page maps below an entry can be copied to a new page map. -/
theorem Source.child {table : ℕ} (hc : Source s T (n + 1) dest src) (hi : i ∈ T) (hsrc : (s.mem src i).present = true)
    (hdest : (s.mem dest i).present = true) (hptr : (s.mem dest i).pointer = table)
    (hzero : s.mem table = fun _ => .zero) : Source s slots n table (s.mem src i).pointer := by
  subst hptr
  have hbelow : ∀ f ∈ {(s.mem src i).pointer} + s.below false slots n (s.mem src i).pointer,
      f ∈ {src} + s.below false T (n + 1) src := by
    intro f hf
    rw [← held_succ_format hsrc] at hf
    exact mem_pageMaps hi hf
  have htable : (s.mem dest i).pointer ∈ s.below false T (n + 1) dest := by
    refine mem_below.mpr ⟨i, hi, ?_⟩
    rw [held_succ_format hdest]
    exact Multiset.mem_add.mpr (.inl (Multiset.mem_singleton_self _))
  constructor
  · exact hc.sound.child hi hdest
  · exact fun f hf => hc.inUse f (hbelow f hf)
  · intro f hf
    rw [below_zero hzero]
    refine ⟨?_, Multiset.notMem_zero f⟩
    rintro rfl
    exact (hc.apart _ (hbelow _ hf)).2 htable
  · exact (hc.plain i hi).2 _ (child_present hsrc)

/-- The entry of another level is copied, with a new page map below it, which then is copied, too. -/
theorem copiesEntry_table {table : ℕ} {s₂ : Machine} (hc : Source s T (n + 1) dest src) (hi : i ∈ T)
    (habsent : (s.mem dest i).present = false) (hp : (s.mem src i).present = true)
    (hnew : s.newPageMap = (.ok table, s₁)) (hs₂ : s₂ = s₁.setEntry dest i ((s₁.mem src i).setPointer table))
    (hcopy : Source s₂ slots n table (s₂.mem src i).pointer → (∀ j, (s₂.mem table j).present = false) →
      CopiesReadOnly s₂ s' slots n table (s₂.mem src i).pointer 0 r) :
    CopiesEntry s s' T (n + 1) dest src i r := by
  obtain ⟨hnew, hptr⟩ := NewEntry.of_copy (n := n + 1) hnew hc.sound.pageMap_allocated
    (hc.inUse src (Multiset.mem_add.mpr (.inl (Multiset.mem_singleton_self _)))) hs₂
  have hzero := hnew.frame_mem (Nat.succ_pos n)
  have hself : s₂.mem dest i = (s.mem src i).setPointer table := by rw [hnew.pageMap_mem, Function.update_self]
  have hp₂ : (s₂.mem dest i).present = true := by rwa [hself]
  have hptr₂ : (s₂.mem dest i).pointer = table := by rwa [hself]
  have hold : held (format false) slots s.mem (n + 1) (s.mem dest i) = 0 := held_of_absent (child_absent habsent)
  -- The new page map below the entry.
  obtain ⟨hadds, hothers⟩ : Adds s s₂ T (n + 1) dest {table} ∧
      ∀ j ∈ T, j ≠ i → ∀ x ∈ held (format false) slots s.mem (n + 1) (s.mem dest j), s₂.mem x = s.mem x := by
    refine Adds.of_entry hc.sound hi hnew.takes (fun x hx _ hxf => hnew.others x hx ?_) (fun j hj => ?_) ?_
    · rwa [Multiset.mem_singleton] at hxf
    · rw [hnew.pageMap_mem, Function.update_of_ne hj]
    · rw [hold, zero_add, held_succ_format hp₂, hptr₂, below_zero hzero, add_zero]
  have hc₂ := hc.adds hadds
  have hsrc₂ : s₂.mem src = s.mem src := hc.src_eq hadds
  have hsrcp : (s₂.mem src i).present = true := by rwa [hsrc₂]
  have htable : table ∈ s₂.below false T (n + 1) dest := by
    rw [hadds.tables, Multiset.mem_add]
    exact .inr (Multiset.mem_singleton_self _)
  obtain ⟨⟨Y, hY⟩, -, -, hplain', hpages⟩ := hcopy (hc₂.child hi hsrcp hp₂ hptr₂ hzero) fun j => by
    rw [hzero]
    rfl
  -- What is done to the new page map is done below the entry.
  have hdest : s'.mem dest = s₂.mem dest := by
    have hout : dest ≠ table := fun he => hc₂.sound.notMem (he ▸ htable)
    refine hY.frame dest hout ?_ (hY.takes.notMem hc₂.sound.pageMap_allocated)
    rw [below_zero hzero]
    exact Multiset.notMem_zero _
  obtain ⟨hadds', hothers'⟩ : Adds s₂ s' T (n + 1) dest Y ∧
      ∀ j ∈ T, j ≠ i → ∀ x ∈ held (format false) slots s₂.mem (n + 1) (s₂.mem dest j), s'.mem x = s₂.mem x := by
    refine Adds.of_entry hc₂.sound hi hY.takes (fun x _ hx hxY => ?_) (fun j _ => by rw [hdest]) ?_
    · rw [held_succ_format hp₂, hptr₂, Multiset.mem_add, Multiset.mem_singleton, not_or] at hx
      exact hY.frame x hx.1 hx.2 hxY
    · rw [hdest, held_succ_format hp₂, held_succ_format hp₂, hptr₂, hY.tables, add_assoc]
  have hentries : ∀ j, j ≠ i → s₂.mem dest j = s.mem dest j := fun j hj => by
    rw [hnew.pageMap_mem, Function.update_of_ne hj]
  have hsrcPlain : (s.mem src i).hugePage = false := (hc.plain i hi).1 (Nat.succ_pos n)
  refine ⟨⟨_, hadds.trans hadds'⟩, fun j hj => by rw [hdest, hentries j hj], fun j hj hne x hx => ?_, fun _ => ?_,
    fun hr k hk => ?_⟩
  · rw [hothers' j hj hne x ?_, hothers j hj hne x hx]
    rwa [hentries j hne, held_congr (hothers j hj hne)]
  · rw [hdest, hself]
    refine ⟨fun _ => hsrcPlain, fun c hc' => ?_⟩
    have hchild : (format false).child ((s.mem src i).setPointer table) =
        some ((s.mem src i).setPointer table).pointer :=
      child_present hp
    rw [hchild, hptr, Option.some.injEq] at hc'
    subst hc'
    refine hplain' fun j _ => ?_
    rw [hzero]
    exact every_of_absent rfl fun _ => rfl
  · have hmod : k % 512 ^ (n + 1) < 512 ^ (n + 1) := Nat.mod_lt _ (Nat.pow_pos (by decide))
    obtain ⟨hleaf, hwalk⟩ := hpages hr (k % 512 ^ (n + 1)) (Nat.zero_le _) hmod
    refine .of_source hc hadds (hk ▸ hi) ⟨?_, ?_⟩
    · rw [leafIn, leafIn, hk, hdest, leafBelow_succ hp₂, leafBelow_succ hsrcp, hptr₂]
      exact hleaf
    · rw [hk, hdest, walk_succ hp₂ (by rw [hself]; exact hsrcPlain), walk_succ hsrcp (by rw [hsrc₂]; exact hsrcPlain),
        hptr₂, hwalk, Option.map_map, Option.map_map, hself, hsrc₂]
      congr 1
      funext p
      simp [Page.readOnly]

theorem copyEntries_readOnly {copyChild : ℕ → ℕ → Machine → Except Error Unit × Machine} (hk : i + k = 512)
    (hchild : ∀ s s' dest src r, Source s slots n dest src → (∀ j, (s.mem dest j).present = false) →
      copyChild dest src s = (r, s') → CopiesReadOnly s s' slots n dest src 0 r)
    (hc : Source s T (n + 1) dest src) (hT : ∀ j, i ≤ j → j < 512 → j ∈ T)
    (habsent : ∀ j, i ≤ j → j < 512 → (s.mem dest j).present = false)
    (h : Machine.copyEntries copyChild dest src k i s = (r, s')) : CopiesReadOnly s s' T (n + 1) dest src i r := by
  induction k generalizing i s with
  | zero =>
    obtain rfl : i = 512 := hk
    cases h
    exact .refl
  | succ k ih =>
    have hi := hT i (Nat.le_refl _) (by omega)
    unfold Machine.copyEntries at h
    by_cases hp : (s.mem src i).present = true
    · rw [if_neg (not_not_intro hp)] at h
      rcases hnew : s.newPageMap with ⟨err | table, s₁⟩
      · simp only [hnew] at h
        cases h
        obtain rfl := eq_of_newPageMap_error hnew
        exact ⟨⟨0, .refl⟩, fun _ _ => rfl, fun _ _ _ _ _ => rfl, id, fun hr => by cases hr⟩
      · simp only [hnew] at h
        generalize hs₂ : s₁.setEntry dest i ((s₁.mem src i).setPointer table) = s₂ at h
        rcases hcall : copyChild table (s₂.mem src i).pointer s₂ with ⟨r', s₃⟩
        have hentry : CopiesEntry s s₃ T (n + 1) dest src i r' :=
          copiesEntry_table hc hi (habsent i (Nat.le_refl _) (by omega)) hp hnew hs₂.symm
            fun hc' hz => hchild _ _ _ _ _ hc' hz hcall
        cases r' with
        | error err =>
          simp only [hcall] at h
          cases h
          exact ⟨hentry.adds, fun j hj => hentry.entries j (Nat.ne_of_lt hj),
            fun j hj hlt => hentry.others j hj (Nat.ne_of_lt hlt), hentry.plain_all, fun hr => by cases hr⟩
        | ok =>
          simp only [hcall] at h
          obtain ⟨Y, hY⟩ := hentry.adds
          refine hentry.step hc hT (ih (by omega) (hc.adds hY) (fun j h1 h2 => hT j (by omega) h2)
            (fun j hj hlt => ?_) h)
          rw [hentry.entries j (by omega)]
          exact habsent j (by omega) hlt
    · rw [if_pos hp] at h
      exact (CopiesEntry.refl hi (habsent i (Nat.le_refl _) (by omega)) (Bool.eq_false_iff.mpr hp)).step hc hT
        (ih (by omega) hc (fun j h1 h2 => hT j (by omega) h2) (fun j hj => habsent j (by omega)) h)

/-- **The copy of a page map** has the same pages, not to be written to, and new page maps. -/
theorem copyPageMaps_readOnly (hc : Source s T n dest src) (hi : i ≤ 512) (hT : ∀ j, i ≤ j → j < 512 → j ∈ T)
    (habsent : ∀ j, i ≤ j → j < 512 → (s.mem dest j).present = false)
    (h : Machine.copyPageMaps n dest src i s = (r, s')) : CopiesReadOnly s s' T n dest src i r := by
  induction n generalizing T dest src i s s' r with
  | zero =>
    cases h
    exact copyPages_readOnly (by omega) hc hT habsent
  | succ n ih =>
    refine copyEntries_readOnly (by omega) (fun s s' dest src r hc' hz hcall => ?_) hc hT habsent h
    exact ih hc' (Nat.zero_le _) (fun j _ hj => mem_slots.mpr hj) (fun j _ _ => hz j) hcall

end DuvuvurKernel
