import DuvuvurKernel.Paging.Setup

/-!
# New pages

`SetupPageMap` takes a free frame for each page that is not there yet, so no two of the new pages are
the same frame, whatever the call returns (`setupPageMap_fills`). So if the pages of a page map are frames of their own,
they still are after it.
-/

namespace DuvuvurKernel

open Lib.TableTrees

/-- A page map has grown, and each page that has changed is a frame that was free, is there once, and is zero. -/
structure Fills (s s' : Machine) (T : Finset ℕ) (n pageMap : ℕ) (K : Set ℕ) (Y Z : Multiset ℕ) : Prop where
  grows : Grows false s s' T n pageMap K Y Z
  page : ∀ k f, k / 512 ^ n ∈ T → pageIn s'.mem n pageMap k = some f → pageIn s.mem n pageMap k = some f ∨ f ∈ Z
  once : ∀ k k' f, k / 512 ^ n ∈ T → k' / 512 ^ n ∈ T → f ∈ Z → pageIn s'.mem n pageMap k = some f →
    pageIn s'.mem n pageMap k' = some f → k = k'
  zero : ∀ k f, k / 512 ^ n ∈ T → f ∈ Z → pageIn s'.mem n pageMap k = some f → s'.mem f = fun _ => .zero
  keep : ∀ k f, k / 512 ^ n ∈ T → pageIn s.mem n pageMap k = some f → pageIn s'.mem n pageMap k = some f

/-- The pages of a page map are in use. -/
def PagesUsed (s : Machine) (T : Finset ℕ) (n pageMap : ℕ) : Prop :=
  ∀ k f, k / 512 ^ n ∈ T → pageIn s.mem n pageMap k = some f → s.memoryManager.getBit f = true

variable {w : Bool} {s s' s₁ s₂ : Machine} {T : Finset ℕ} {n pageMap i childMap num f : ℕ} {addr : LinearAddress4Level}
  {K L : Set ℕ} {Y Y' Z Z' : Multiset ℕ}

namespace Fills

theorem refl : Fills s s T n pageMap K 0 0 where
  grows := .refl
  page := fun _ _ _ h => .inl h
  once := fun _ _ _ _ _ hf => absurd hf (Multiset.notMem_zero _)
  zero := fun _ _ _ hf => absurd hf (Multiset.notMem_zero _)
  keep := fun _ _ _ h => h

theorem mono (h : Fills s s' T n pageMap K Y Z) (hK : K ⊆ L) : Fills s s' T n pageMap L Y Z :=
  { h with grows := h.grows.mono hK }

/-- New frames were free. -/
theorem isFree (h : Fills s s' T n pageMap K Y Z) (hf : f ∈ Z) : s.memoryManager.getBit f = false :=
  (h.grows.takes.isFree f (Multiset.mem_add.mpr (.inr hf))).2

theorem used (h : Fills s s' T n pageMap K Y Z) (hu : PagesUsed s T n pageMap) : PagesUsed s' T n pageMap := by
  intro k f hk hf
  rcases h.page k f hk hf with hold | hnew
  · exact h.grows.takes.mono (hu k f hk hold)
  · exact (h.grows.takes.getBit f).mpr (.inr (Multiset.mem_add.mpr (.inr hnew)))

theorem trans (hs : Sound false s T n pageMap) (h : Fills s s' T n pageMap K Y Z)
    (h' : Fills s' s₂ T n pageMap L Y' Z') :
    Fills s s₂ T n pageMap (K ∪ L) (Y + Y') (Z + Z') where
  grows := h.grows.trans h'.grows
  page := by
    intro k f hk hf
    rw [Multiset.mem_add]
    rcases h'.page k f hk hf with hold | hnew
    · exact (h.page k f hk hold).imp_right .inl
    · exact .inr (.inr hnew)
  once := by
    intro k k' f hk hk' hf hpage hpage'
    by_cases hnew : f ∈ Z'
    · exact h'.once k k' f hk hk' hnew hpage hpage'
    · have hold := (h'.page k f hk hpage).resolve_right hnew
      have hold' := (h'.page k' f hk' hpage').resolve_right hnew
      exact h.once k k' f hk hk' ((Multiset.mem_add.mp hf).resolve_right hnew) hold hold'
  zero := by
    intro k f hk hf hpage
    by_cases hnew : f ∈ Z'
    · exact h'.zero k f hk hnew hpage
    · have hold := (h'.page k f hk hpage).resolve_right hnew
      have hZ := (Multiset.mem_add.mp hf).resolve_right hnew
      obtain ⟨hne, hout⟩ := h.grows.page_notMem hs hZ
      have hused := (h.grows.takes.getBit f).mpr (.inr (Multiset.mem_add.mpr (.inr hZ)))
      rw [h'.grows.frame f hne hout (h'.grows.takes.notMem hused)]
      exact h.zero k f hk hZ hold
  keep := fun k f hk hf => h'.keep k f hk (h.keep k f hk hf)

/-- What is done below one entry. -/
theorem lift (hs : Sound false s T (n + 1) pageMap) (hi : i ∈ T) (hp : (s.mem pageMap i).present = true)
    (hu : PagesUsed s T (n + 1) pageMap) (h : Fills s s' slots n (s.mem pageMap i).pointer K Y Z) :
    Fills s s' T (n + 1) pageMap {k | k / 512 ^ (n + 1) = i ∧ k % 512 ^ (n + 1) ∈ K} Y Z := by
  have hgrows := h.grows.lift hs hi hp
  have hself := h.grows.pageMap_eq hs hi hp
  have hbelow : ∀ k, k / 512 ^ (n + 1) = i →
      pageIn s'.mem (n + 1) pageMap k = pageIn s'.mem n (s.mem pageMap i).pointer (k % 512 ^ (n + 1)) ∧
      pageIn s.mem (n + 1) pageMap k = pageIn s.mem n (s.mem pageMap i).pointer (k % 512 ^ (n + 1)) := by
    intro k hk
    constructor
    · rw [pageIn, hk, hself]
      exact pageBelow_succ hp
    · rw [pageIn, hk]
      exact pageBelow_succ hp
  have hslot : ∀ k, k % 512 ^ (n + 1) / 512 ^ n ∈ slots := by
    intro k
    have hmod : k % 512 ^ (n + 1) < 512 ^ (n + 1) := Nat.mod_lt _ (Nat.pow_pos (by decide))
    exact mem_slots.mpr (Nat.div_lt_of_lt_mul (by rwa [Nat.pow_succ] at hmod))
  have hother : ∀ k, k / 512 ^ (n + 1) ∈ T → k / 512 ^ (n + 1) ≠ i →
      pageIn s'.mem (n + 1) pageMap k = pageIn s.mem (n + 1) pageMap k :=
    fun k hk hne => hgrows.pages k hk fun hc => hne hc.1
  -- A page that is a new frame is below the entry.
  have hbelowOf : ∀ k f, k / 512 ^ (n + 1) ∈ T → f ∈ Z → pageIn s'.mem (n + 1) pageMap k = some f →
      k / 512 ^ (n + 1) = i := by
    intro k f hk hf hpage
    by_contra hne
    rw [hother k hk hne] at hpage
    have hfree := h.isFree hf
    rw [hu k f hk hpage] at hfree
    cases hfree
  refine ⟨hgrows, fun k f hk hf => ?_, fun k k' f hk hk' hf hpage hpage' => ?_, fun k f hk hf hpage => ?_,
    fun k f hk hf => ?_⟩
  · by_cases hki : k / 512 ^ (n + 1) = i
    · rw [(hbelow k hki).1] at hf
      rw [(hbelow k hki).2]
      exact h.page _ f (hslot k) hf
    · rw [hother k hk hki] at hf
      exact .inl hf
  · have hki := hbelowOf k f hk hf hpage
    have hki' := hbelowOf k' f hk' hf hpage'
    rw [(hbelow k hki).1] at hpage
    rw [(hbelow k' hki').1] at hpage'
    have hmod := h.once _ _ f (hslot k) (hslot k') hf hpage hpage'
    rw [← Nat.div_add_mod k (512 ^ (n + 1)), ← Nat.div_add_mod k' (512 ^ (n + 1)), hki, hki', hmod]
  · rw [(hbelow k (hbelowOf k f hk hf hpage)).1] at hpage
    exact h.zero _ f (hslot k) hf hpage
  · by_cases hki : k / 512 ^ (n + 1) = i
    · rw [(hbelow k hki).2] at hf
      rw [(hbelow k hki).1]
      exact h.keep _ f (hslot k) hf
    · rw [hother k hk hki]
      exact hf

/-- The entry that `SetupPageMap` goes through next. -/
theorem ensure (hs : Sound false s T n pageMap) (hi : i ∈ T) (hu : PagesUsed s T n pageMap)
    (h : s.setNewPageMapIfNotPresent pageMap i = (.ok childMap, s₁))
    (h' : s' = s₁.setEntry pageMap i (((s₁.mem pageMap i).setUser true).setWritable (if n + 1 = 1 then w else true))) :
    (∃ Y Z, Fills s s' T n pageMap Set.univ Y Z) ∧ (s'.mem pageMap i).present = true ∧
      (s'.mem pageMap i).pointer = childMap := by
  obtain ⟨⟨Y, Z, hg, hpage⟩, hp, hptr⟩ := Grows.ensure hs hi (fun h0 => by cases h0) (fun h0 => by cases h0) h h'
  have hin : ∀ k f, k / 512 ^ n ∈ T → f ∈ Z → pageIn s'.mem n pageMap k = some f → n = 0 ∧ k = i := by
    intro k f hk hf hpk
    by_contra hki
    rw [hg.pages k hk hki] at hpk
    have hfree := (hg.takes.isFree f (Multiset.mem_add.mpr (.inr hf))).2
    rw [hu k f hk hpk] at hfree
    cases hfree
  refine ⟨⟨Y, Z, hg.mono (Set.subset_univ _), fun k f hk hf => ?_, fun k k' f hk hk' hf hpk hpk' => ?_,
    fun k f hk hf hpk => ?_, fun k f hk hf => ?_⟩, hp, hptr⟩
  · by_cases hki : n = 0 ∧ k = i
    · obtain ⟨rfl, rfl⟩ := hki
      rw [pageIn, Nat.pow_zero, Nat.div_one, pageBelow, if_pos hp, hptr, Option.some.injEq] at hf
      exact hf ▸ hpage rfl
    · rw [hg.pages k hk hki] at hf
      exact .inl hf
  · rw [(hin k f hk hf hpk).2, (hin k' f hk' hf hpk').2]
  · obtain ⟨rfl, rfl⟩ := hin k f hk hf hpk
    rw [pageIn, Nat.pow_zero, Nat.div_one, pageBelow, if_pos hp, hptr, Option.some.injEq] at hpk
    subst hpk
    have hfree := (hg.takes.isFree childMap (Multiset.mem_add.mpr (.inr hf))).2
    rcases setNewPageMapIfNotPresent_cases s pageMap k with ⟨hpres, h1⟩ | ⟨-, frame, s₂, h2, h3, h1⟩ | ⟨-, -, h1⟩
    · -- It would have been in use before.
      rw [h1] at h
      cases h
      have hpage : pageIn s.mem 0 pageMap k = some (s.mem pageMap k).pointer := by
        rw [pageIn, Nat.pow_zero, Nat.div_one, pageBelow, if_pos hpres]
      rw [hu k _ hk hpage] at hfree
      cases hfree
    · rw [h1] at h
      cases h
      have hne := h2.ne hs.pageMap_allocated
      have hmem : s'.mem childMap = s₂.mem childMap := by
        rw [h', Machine.setEntry_setEntry]
        exact Function.update_of_ne (Ne.symm hne) _ _
      rw [hmem, h3, Function.update_self]
    · rw [h1] at h
      cases h
  · by_cases hki : n = 0 ∧ k = i
    · obtain ⟨rfl, rfl⟩ := hki
      rw [pageIn, Nat.pow_zero, Nat.div_one] at hf ⊢
      obtain ⟨hpres, hf⟩ : (s.mem pageMap k).present = true ∧ (s.mem pageMap k).pointer = f := by
        simpa [pageBelow] using hf
      rcases setNewPageMapIfNotPresent_cases s pageMap k with ⟨-, h1⟩ | ⟨habs, -⟩ | ⟨habs, -⟩
      · rw [h1] at h
        cases h
        rw [pageBelow, if_pos hp, hptr, hf]
      all_goals
        rw [habs] at hpres
        cases hpres
    · rw [hg.pages k hk hki]
      exact hf

end Fills

/-- The loop over the entries. -/
theorem setupEntries_fills
    {setupChild : ℕ → LinearAddress4Level → ℕ → Machine → Except Error ℕ × Machine}
    (hchild : ∀ s s' addr num r, Sound false s T n pageMap → addr.part (n + 1) ∈ T → PagesUsed s T n pageMap →
      (s.mem pageMap (addr.part (n + 1))).present = true →
      setupChild (s.mem pageMap (addr.part (n + 1))).pointer addr num s = (r, s') →
      ∃ Y Z, Fills s s' T n pageMap Set.univ Y Z)
    {fuel : ℕ} {r : Except Error ℕ} (h4 : n + 1 ≤ 4) (hs : Sound false s T n pageMap) (hu : PagesUsed s T n pageMap)
    (hT : ∀ i, addr.part (n + 1) ≤ i → i < 512 → i ∈ T)
    (h : Machine.setupEntries setupChild pageMap (n + 1) w fuel addr num s = (r, s')) :
    ∃ Y Z, Fills s s' T n pageMap Set.univ Y Z := by
  have hpart : addr.part (n + 1) < 512 := addr.part_lt (Nat.succ_ne_zero n)
  have hi := hT _ (Nat.le_refl _) hpart
  induction fuel generalizing addr num s with
  | zero =>
    cases h
    exact ⟨0, 0, .refl⟩
  | succ fuel ih =>
    by_cases hnum : num = 0
    · subst hnum
      unfold Machine.setupEntries at h
      rw [if_pos rfl] at h
      cases h
      exact ⟨0, 0, .refl⟩
    · rcases setupEntries_round hnum h with ⟨hset, err, rfl⟩ | ⟨childMap, s₁, hset, s₂, hs₂, hround⟩
      · rcases setNewPageMapIfNotPresent_cases s pageMap (addr.part (n + 1)) with
          ⟨-, h1⟩ | ⟨-, _, _, -, -, h1⟩ | ⟨-, -, h1⟩
        · rw [h1] at hset
          cases hset
        · rw [h1] at hset
          cases hset
        · rw [h1] at hset
          cases hset
          exact ⟨0, 0, .refl⟩
      · obtain ⟨⟨Y, Z, hX⟩, hp, hptr⟩ := Fills.ensure hs hi hu hset hs₂
        have hs' := hX.grows.sound hs
        have hu' := hX.used hu
        subst hptr
        rcases hround with ⟨hcall, -⟩ | ⟨hlast, num₁, s₃, hcall, hrest⟩
        · obtain ⟨Y', Z', hY⟩ := hchild s₂ s' addr num r hs' hi hu' hp hcall
          exact ⟨_, _, (hX.trans hs hY).mono (Set.subset_univ _)⟩
        · obtain ⟨Y', Z', hY⟩ := hchild s₂ s₃ addr num _ hs' hi hu' hp hcall
          have hlt : addr.part (n + 1) + 1 < 512 := by omega
          obtain ⟨hpart', -⟩ := LinearAddress4Level.pageNumber_next h4 hlt
          rw [Nat.add_sub_cancel] at hrest
          obtain ⟨Y'', Z'', hZ⟩ := ih (hY.grows.sound hs') (hY.used hu')
            (fun j hj hj' => hT j (by omega) hj') hrest (by omega)
            (hT _ (by omega) (by omega))
          exact ⟨_, _, ((hX.trans hs hY).trans hs hZ).mono (Set.subset_univ _)⟩

/-- **Setting pages up** takes a free frame for each page that is new. -/
theorem setupPageMap_fills {r : Except Error ℕ} (h4 : n + 1 ≤ 4) (hs : Sound false s T n pageMap)
    (hu : PagesUsed s T n pageMap) (hT : ∀ i, addr.part (n + 1) ≤ i → i < 512 → i ∈ T)
    (h : Machine.setupPageMap w (n + 1) pageMap addr num s = (r, s')) : ∃ Y Z, Fills s s' T n pageMap Set.univ Y Z := by
  induction n generalizing T pageMap addr num s r s' with
  | zero =>
    unfold Machine.setupPageMap at h
    refine setupEntries_fills ?_ h4 hs hu hT h
    intro s s' addr num r _ _ _ _ hcall
    cases hcall
    exact ⟨0, 0, .refl⟩
  | succ n ih =>
    unfold Machine.setupPageMap at h
    refine setupEntries_fills ?_ h4 hs hu hT h
    intro s s' addr num r hs hi hu hp hcall
    have hchild : PagesUsed s slots n (s.mem pageMap (addr.part (n + 2))).pointer := by
      intro k f hk hf
      have hlt : k < 512 ^ (n + 1) := by
        have hmul := Nat.div_lt_iff_lt_mul (Nat.pow_pos (by decide)) |>.mp (mem_slots.mp hk)
        rwa [Nat.pow_succ, Nat.mul_comm]
      have hdiv : (addr.part (n + 2) * 512 ^ (n + 1) + k) / 512 ^ (n + 1) = addr.part (n + 2) := by
        rw [Nat.mul_comm, Nat.mul_add_div (Nat.pow_pos (by decide)), Nat.div_eq_of_lt hlt, Nat.add_zero]
      have hmod : (addr.part (n + 2) * 512 ^ (n + 1) + k) % 512 ^ (n + 1) = k := by
        rw [Nat.mul_comm, Nat.mul_add_mod, Nat.mod_eq_of_lt hlt]
      refine hu (addr.part (n + 2) * 512 ^ (n + 1) + k) f ?_ ?_
      · rw [hdiv]
        exact hi
      · rw [pageIn, hdiv, hmod, pageBelow_succ hp]
        exact hf
    obtain ⟨Y, Z, hfills⟩ := ih (by omega) (hs.child hi hp) hchild (fun i _ hi => mem_slots.mpr hi) hcall
    exact ⟨Y, Z, (hfills.lift hs hi hp hu).mono (Set.subset_univ _)⟩

end DuvuvurKernel
