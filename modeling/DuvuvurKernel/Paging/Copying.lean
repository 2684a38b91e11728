import DuvuvurKernel.Paging.Growth

/-!
# Copying page maps

`CopyPageMaps` gives the copy page maps of its own, and shares the pages: the entries
that point to them are not writable in the copy. So the copy grows by page maps only
(`copyPageMaps_spec`), has the same pages, and the page maps it is made from stay as
they are.
-/

namespace DuvuvurKernel

open Lib.TableTrees

variable {s s' s₁ : Machine} {T : Finset ℕ} {n dest src i : ℕ} {K : Set ℕ} {Y Z : Multiset ℕ} {e' : PageMapEntry}
  {r : Except Error Unit}

/-- Page maps that can be copied, and where to. -/
structure Copyable (s : Machine) (T : Finset ℕ) (n dest src : ℕ) : Prop where
  sound : Sound true s T n dest
  inUse : ∀ f ∈ {src} + s.below false T n src, s.memoryManager.getBit f = true
  apart : ∀ f ∈ {src} + s.below false T n src, f ≠ dest ∧ f ∉ s.below false T n dest
  usable : ∀ i ∈ T, Every (format true) slots s.mem Usable n (s.mem src i)

/-- What copying the entries from `i` on does, whatever the result. -/
structure Copies (s s' : Machine) (T : Finset ℕ) (n dest src i : ℕ) (r : Except Error Unit) : Prop where
  grows : ∃ Y, Grows true s s' T n dest {k | i ≤ k / 512 ^ n} Y 0
  pages : r = .ok () → ∀ k, i ≤ k / 512 ^ n → k < 512 ^ (n + 1) → pageIn s'.mem n dest k = pageIn s.mem n src k

/-! ### The page maps copied from -/

theorem Copyable.unchanged (h : Copyable s T n dest src) (hg : Grows true s s' T n dest K Y Z) :
    ∀ f ∈ {src} + s.below false T n src, s'.mem f = s.mem f := by
  intro f hf
  obtain ⟨hne, hout⟩ := h.apart f hf
  exact hg.frame f hne hout (hg.takes.notMem (h.inUse f hf))

theorem Copyable.src_eq (h : Copyable s T n dest src) (hg : Grows true s s' T n dest K Y Z) : s'.mem src = s.mem src :=
  pageMap_congr (h.unchanged hg)

theorem Copyable.src_pages (h : Copyable s T n dest src) (hg : Grows true s s' T n dest K Y Z) {k : ℕ}
    (hk : k / 512 ^ n ∈ T) : pageIn s'.mem n src k = pageIn s.mem n src k :=
  pageIn_congr (h.unchanged hg) hk

theorem Copyable.grows (h : Copyable s T n dest src) (hg : Grows true s s' T n dest K Y Z) :
    Copyable s' T n dest src := by
  have hbelow : s'.below false T n src = s.below false T n src := Machine.below_congr (h.unchanged hg)
  refine ⟨hg.sound h.sound, fun f hf => ?_, fun f hf => ?_, every_entry_congr (h.unchanged hg) h.usable⟩
  · rw [hbelow] at hf
    exact hg.takes.mono (h.inUse f hf)
  · rw [hbelow] at hf
    obtain ⟨hne, hout⟩ := h.apart f hf
    refine ⟨hne, ?_⟩
    rw [hg.tables, Multiset.mem_add, not_or]
    exact ⟨hout, fun hY => hg.takes.notMem (h.inUse f hf) (Multiset.mem_add.mpr (Or.inl hY))⟩

/-! ### The lowest level -/

/-- A shared page takes the place of an absent entry. -/
theorem Grows.shared (hs : Sound true s T 0 dest) (hi : i ∈ T) (habsent : (s.mem dest i).present = false)
    (hw : e'.writable = false) (hu : e'.user = true) :
    Grows true s (s.setEntry dest i e') T 0 dest {i} 0 0 := by
  have hmem : ∀ x, x ≠ dest → (s.setEntry dest i e').mem x = s.mem x := fun x hx => Function.update_of_ne hx _ _
  have hself : ∀ j, (s.setEntry dest i e').mem dest j = Function.update (s.mem dest) i e' j := fun j => by
    simp [Machine.setEntry]
  refine .of_entry hs hi (Takes.of_eq rfl rfl) (fun x hx _ _ => hmem x hx) (fun j hj => ?_) ?_ (fun _ => ?_)
    (fun _ => ?_) fun k hki hkK => ?_
  · rw [hself, Function.update_of_ne hj]
  · rw [held_leaf_false, held_leaf_false, add_zero]
  · rw [hself, Function.update_self, held_leaf_of_not_writable hw, held_of_absent (child_absent habsent)]
    rfl
  · rw [hself, Function.update_self]
    exact ⟨fun _ => ⟨hu, fun h => absurd h (Nat.lt_irrefl 0)⟩, fun h => absurd h (Nat.lt_irrefl 0)⟩
  · rw [Nat.pow_zero, Nat.div_one] at hki
    exact absurd hki hkK

/-- Copying nothing more. -/
theorem Copies.refl : Copies s s T n dest src 512 r where
  grows := ⟨0, .refl⟩
  pages := fun _ k hk hlt => by
    have hdiv : k / 512 ^ n < 512 := Nat.div_lt_of_lt_mul (by rwa [Nat.pow_succ] at hlt)
    omega

/-- One entry, and those after it. -/
theorem Copies.step (hc : Copyable s T n dest src) (hT : ∀ j, i ≤ j → j < 512 → j ∈ T)
    (hg : ∃ Y, Grows true s s₁ T n dest {k | k / 512 ^ n = i} Y 0)
    (hp : ∀ k, k / 512 ^ n = i → pageIn s₁.mem n dest k = pageIn s.mem n src k)
    (h : Copies s₁ s' T n dest src (i + 1) r) : Copies s s' T n dest src i r := by
  obtain ⟨Y, hY⟩ := hg
  obtain ⟨Y', hY'⟩ := h.grows
  refine ⟨⟨Y + Y', ?_⟩, fun hr k hk hlt => ?_⟩
  · have htrans := (hY.trans hY').mono (L := {k | i ≤ k / 512 ^ n}) (by
      rintro k (hk | hk)
      · exact Nat.le_of_eq hk.symm
      · exact Nat.le_of_succ_le hk)
    rwa [add_zero] at htrans
  · have hslot : k / 512 ^ n ∈ T := hT _ hk (Nat.div_lt_of_lt_mul (by rwa [Nat.pow_succ] at hlt))
    rcases Nat.lt_or_eq_of_le hk with hgt | heq
    · rw [h.pages hr k hgt hlt, hc.src_pages hY hslot]
    · rw [hY'.pages k hslot (fun hk' => absurd hk' (by simp [← heq])), hp k heq.symm]

theorem copyPages_spec {k : ℕ} (hk : i + k = 512) (hc : Copyable s T 0 dest src) (hT : ∀ j, i ≤ j → j < 512 → j ∈ T)
    (habsent : ∀ j, i ≤ j → (s.mem dest j).present = false) :
    Copies s (Machine.copyPages dest src k i s) T 0 dest src i (.ok ()) := by
  induction k generalizing i s with
  | zero =>
    obtain rfl : i = 512 := hk
    exact Copies.refl
  | succ k ih =>
    have hi := hT i (Nat.le_refl _) (by omega)
    unfold Machine.copyPages
    by_cases hp : (s.mem src i).present = true
    · rw [if_neg (not_not_intro hp)]
      have husable := (hc.usable i hi).1 hp
      have hg : Grows true s (s.setEntry dest i ((s.mem src i).setWritable false)) T 0 dest {i} 0 0 :=
        .shared hc.sound hi (habsent i (Nat.le_refl _)) rfl husable.1
      refine .step hc hT ⟨0, hg.mono fun j hj => ?_⟩ (fun j hj => ?_)
        (ih (by omega) (hc.grows hg) (fun j h1 h2 => hT j (by omega) h2) fun j hj => ?_)
      · rw [Set.mem_ofPred_eq, Nat.pow_zero, Nat.div_one]
        exact hj
      · rw [pageIn, pageIn, hj]
        simp [Machine.setEntry, pageBelow, hp]
      · have hne : j ≠ i := by omega
        simpa [Machine.setEntry, hne] using habsent j (by omega)
    · rw [if_pos hp]
      refine .step hc hT ⟨0, .refl⟩ (fun j hj => ?_)
        (ih (by omega) hc (fun j h1 h2 => hT j (by omega) h2) fun j hj => habsent j (by omega))
      rw [pageIn, pageIn, hj, pageBelow, pageBelow, habsent i (Nat.le_refl _), if_neg hp]
      rfl

/-! ### The other levels -/

/-- The page maps below an entry can be copied to a new page map. -/
theorem Copyable.child {table : ℕ} (hc : Copyable s T (n + 1) dest src) (hi : i ∈ T)
    (hsrc : (s.mem src i).present = true) (hdest : (s.mem dest i).present = true)
    (hptr : (s.mem dest i).pointer = table) (hzero : s.mem table = fun _ => .zero) :
    Copyable s slots n table (s.mem src i).pointer := by
  subst hptr
  have hmem : ∀ f ∈ {(s.mem src i).pointer} + s.below false slots n (s.mem src i).pointer,
      f ∈ {src} + s.below false T (n + 1) src := by
    rw [← held_succ_format hsrc]
    exact fun f hf => mem_pageMaps hi hf
  have htable : (s.mem dest i).pointer ∈ s.below false T (n + 1) dest := by
    refine mem_below.mpr ⟨i, hi, ?_⟩
    rw [held_succ_format hdest]
    exact Multiset.mem_add.mpr (Or.inl (Multiset.mem_singleton_self _))
  refine ⟨hc.sound.child hi hdest, fun f hf => hc.inUse f (hmem f hf), fun f hf => ⟨?_, ?_⟩, fun j hj => ?_⟩
  · rintro rfl
    exact (hc.apart _ (hmem _ hf)).2 htable
  · rw [below_zero hzero]
    exact Multiset.notMem_zero f
  · exact (hc.usable i hi).2 _ (child_present hsrc) j hj

/-- The entry of another level is set to a copy of one that points to a new page map. -/
theorem NewEntry.of_copy {table : ℕ} {s₂ : Machine} (hnew : s.newPageMap = (.ok table, s₁))
    (hdest : s.memoryManager.getBit dest = true) (hsrc : s.memoryManager.getBit src = true)
    (hs₂ : s₂ = s₁.setEntry dest i ((s₁.mem src i).setPointer table)) :
    NewEntry s s₂ n dest i ((s.mem src i).setPointer table) table ∧
        ((s.mem src i).setPointer table).pointer = table := by
  obtain ⟨htakes, hmem⟩ := takes_of_newPageMap hnew
  rw [hmem, Function.update_of_ne (htakes.ne hsrc)] at hs₂
  exact ⟨.of_newPageMap htakes hmem hdest hs₂,
    pointer_setPointer (htakes.isFree table (Multiset.mem_singleton_self _)).lt⟩

/-- A present entry of another level is copied. -/
theorem copyEntry_spec {table : ℕ} {s₂ : Machine} (hc : Copyable s T (n + 1) dest src) (hi : i ∈ T)
    (habsent : (s.mem dest i).present = false) (hp : (s.mem src i).present = true)
    (hnew : s.newPageMap = (.ok table, s₁)) (hs₂ : s₂ = s₁.setEntry dest i ((s₁.mem src i).setPointer table))
    (hcopy : Copyable s₂ slots n table (s₂.mem src i).pointer → (∀ j, (s₂.mem table j).present = false) →
      Copies s₂ s' slots n table (s₂.mem src i).pointer 0 r) :
    (∃ Y, Grows true s s' T (n + 1) dest {k | k / 512 ^ (n + 1) = i} Y 0) ∧
      (r = .ok () → ∀ k, k / 512 ^ (n + 1) = i → pageIn s'.mem (n + 1) dest k = pageIn s.mem (n + 1) src k) ∧
      ∀ j, j ≠ i → s'.mem dest j = s.mem dest j := by
  obtain ⟨hnew, hptr⟩ := NewEntry.of_copy (n := n + 1) hnew hc.sound.pageMap_allocated (hc.inUse src (by simp)) hs₂
  have husable := (hc.usable i hi).root
  obtain ⟨Y, Z, -, -, hZ, hg⟩ := Grows.new hc.sound hi (Or.inl habsent) hnew hp hptr (fun _ => husable.2)
    (fun _ => (husable.1 hp).1) (fun _ => (husable.1 hp).2 (Nat.succ_pos n)) fun _ => (husable.1 hp).2 (Nat.succ_pos n)
  obtain rfl := hZ (Nat.succ_pos n)
  -- the new page map below the entry
  have hself : s₂.mem dest i = (s.mem src i).setPointer table := by rw [hnew.pageMap_mem, Function.update_self]
  have hzero := hnew.frame_mem (Nat.succ_pos n)
  have hc₂ := hc.grows hg
  have hsrc₂ : s₂.mem src = s.mem src := hc.src_eq hg
  have hp₂ : (s₂.mem dest i).present = true := by rwa [hself]
  have hptr₂ : (s₂.mem dest i).pointer = table := by rwa [hself]
  have hsrcp : (s₂.mem src i).present = true := by rwa [hsrc₂]
  obtain ⟨⟨Y', hY'⟩, hpages⟩ := hcopy (hc₂.child hi hsrcp hp₂ hptr₂ hzero) fun j => by
    rw [hzero]
    rfl
  subst hptr₂
  have hlift := hY'.lift hc₂.sound hi hp₂
  have hdest := hY'.pageMap_eq hc₂.sound hi hp₂
  refine ⟨⟨Y + Y', ?_⟩, fun hr k hk => ?_, fun j hj => ?_⟩
  · have htrans := (hg.trans hlift).mono (L := {k | k / 512 ^ (n + 1) = i}) (by
      rintro k (hk | hk)
      · exact absurd hk.1 (Nat.succ_ne_zero n)
      · exact hk.1)
    rwa [add_zero] at htrans
  · have hmod : k % 512 ^ (n + 1) < 512 ^ (n + 1) := Nat.mod_lt _ (Nat.pow_pos (by decide))
    rw [← hc.src_pages hg (hk ▸ hi), pageIn, pageIn, hk, hdest, pageBelow_succ hp₂, pageBelow_succ hsrcp]
    exact hpages hr _ (Nat.zero_le _) hmod
  · rw [hdest, hnew.pageMap_mem, Function.update_of_ne hj]

theorem copyEntries_spec {copyChild : ℕ → ℕ → Machine → Except Error Unit × Machine} {k : ℕ} (hk : i + k = 512)
    (hchild : ∀ s s' dest src r, Copyable s slots n dest src → (∀ j, (s.mem dest j).present = false) →
      copyChild dest src s = (r, s') → Copies s s' slots n dest src 0 r)
    (hc : Copyable s T (n + 1) dest src) (hT : ∀ j, i ≤ j → j < 512 → j ∈ T)
    (habsent : ∀ j, i ≤ j → (s.mem dest j).present = false)
    (h : Machine.copyEntries copyChild dest src k i s = (r, s')) : Copies s s' T (n + 1) dest src i r := by
  induction k generalizing i s with
  | zero =>
    obtain rfl : i = 512 := hk
    cases h
    exact Copies.refl
  | succ k ih =>
    have hi := hT i (Nat.le_refl _) (by omega)
    unfold Machine.copyEntries at h
    by_cases hp : (s.mem src i).present = true
    · rw [if_neg (not_not_intro hp)] at h
      rcases hnew : s.newPageMap with ⟨err | table, s₁⟩
      · simp only [hnew] at h
        cases h
        obtain rfl := eq_of_newPageMap_error hnew
        exact ⟨⟨0, .refl⟩, fun hr => by cases hr⟩
      · simp only [hnew] at h
        generalize hs₂ : s₁.setEntry dest i ((s₁.mem src i).setPointer table) = s₂ at h
        rcases hcall : copyChild table (s₂.mem src i).pointer s₂ with ⟨r', s₃⟩
        obtain ⟨⟨Y, hY⟩, hpages, hrest⟩ := copyEntry_spec hc hi (habsent i (Nat.le_refl _)) hp hnew hs₂.symm
          fun hc' hz => hchild _ _ _ _ _ hc' hz hcall
        cases r' with
        | error err =>
          simp only [hcall] at h
          cases h
          exact ⟨⟨Y, hY.mono fun k hk => Nat.le_of_eq hk.symm⟩, fun hr => nomatch hr⟩
        | ok =>
          simp only [hcall] at h
          refine .step hc hT ⟨Y, hY⟩ (hpages rfl)
            (ih (by omega) (hc.grows hY) (fun j h1 h2 => hT j (by omega) h2) (fun j hj => ?_) h)
          rw [hrest j (by omega)]
          exact habsent j (by omega)
    · rw [if_pos hp] at h
      refine .step hc hT ⟨0, .refl⟩ (fun j hj => ?_)
        (ih (by omega) hc (fun j h1 h2 => hT j (by omega) h2) (fun j hj => habsent j (by omega)) h)
      rw [pageIn, pageIn, hj, pageBelow, pageBelow, habsent i (Nat.le_refl _), if_neg hp]
      rfl

/-- **The copy of a page map** grows by page maps, which have the same pages below them. -/
theorem copyPageMaps_spec (hc : Copyable s T n dest src) (hi : i ≤ 512) (hT : ∀ j, i ≤ j → j < 512 → j ∈ T)
    (habsent : ∀ j, i ≤ j → (s.mem dest j).present = false)
    (h : Machine.copyPageMaps n dest src i s = (r, s')) : Copies s s' T n dest src i r := by
  induction n generalizing T dest src i s s' r with
  | zero =>
    cases h
    exact copyPages_spec (by omega) hc hT habsent
  | succ n ih =>
    refine copyEntries_spec (by omega) (fun s s' dest src r hc' hz hcall => ?_) hc hT habsent h
    exact ih hc' (Nat.zero_le _) (fun j _ hj => mem_slots.mpr hj) (fun j _ => hz j) hcall

/-! ### Failing for want of frames -/

theorem copyEntries_error {copyChild : ℕ → ℕ → Machine → Except Error Unit × Machine} {dest src fuel i : ℕ}
    {err : Error} (hchild : ∀ dest src s s' err, copyChild dest src s = (.error err, s') → err = .noEnoughMemory)
    (h : Machine.copyEntries copyChild dest src fuel i s = (.error err, s')) : err = .noEnoughMemory := by
  induction fuel generalizing i s with
  | zero => cases h
  | succ fuel ih =>
    unfold Machine.copyEntries at h
    split at h
    · exact ih h
    · rcases newPageMap_cases s with ⟨frame, s₁, hnew, -⟩ | ⟨hnew, -⟩
      · rw [hnew] at h
        dsimp only at h
        split at h
        next err' s₂ hcall =>
          cases h
          exact hchild _ _ _ _ _ hcall
        next s₂ hcall => exact ih h
      · rw [hnew] at h
        cases h
        rfl

theorem copyPageMaps_error {n dest src start : ℕ} {err : Error}
    (h : Machine.copyPageMaps n dest src start s = (.error err, s')) :
    err = .noEnoughMemory := by
  induction n generalizing dest src start s s' err with
  | zero => cases h
  | succ n ih => exact copyEntries_error (fun _ _ _ _ _ h => ih h) h

end DuvuvurKernel
