import DuvuvurKernel.Paging.Growth
import DuvuvurKernel.Paging.LinearAddress

/-!
# Setting page maps up

`SetupPageMap` goes through the entries of a page map from the first page on, and for
each through the page map below. `setupPageMap_spec` says what it does to the page map
as a whole: it grows, by free frames, and of its pages only those asked for change.
The pages asked for must not be there yet if it is to be told which frames belong to
the page map; what happens to the page maps alone can be said without that.
-/

namespace DuvuvurKernel

open Lib.TableTrees

/-! ### One entry -/

variable {own w : Bool} {s s' s₁ : Machine} {T : Finset ℕ} {n pageMap i childMap num : ℕ} 
  {addr : LinearAddress4Level}

/-- What `SetNewPageMapIfNotPresent` does. -/
theorem setNewPageMapIfNotPresent_cases (s : Machine) (pageMap i : ℕ) :
    ((s.mem pageMap i).present = true ∧ s.setNewPageMapIfNotPresent pageMap i = (.ok (s.mem pageMap i).pointer, s)) ∨
    ((s.mem pageMap i).present = false ∧ ∃ frame s', Takes s s' {frame} ∧
      (s'.mem = Function.update s.mem frame fun _ => .zero) ∧ s.setNewPageMapIfNotPresent pageMap i =
        (.ok frame, s'.setEntry pageMap i (((s'.mem pageMap i).setPointer frame).setPresent true))) ∨
    ((s.mem pageMap i).present = false ∧ (∀ frame, ¬ s.memoryManager.IsFree frame) ∧
      s.setNewPageMapIfNotPresent pageMap i = (.error .noEnoughMemory, s)) := by
  unfold Machine.setNewPageMapIfNotPresent
  cases hp : (s.mem pageMap i).present with
  | true => exact Or.inl ⟨rfl, by simp [hp]⟩
  | false =>
    right
    rcases newPageMap_cases s with ⟨frame, s', h1, h2, h3⟩ | ⟨h1, h2⟩
    · exact Or.inl ⟨rfl, frame, s', h2, h3, by simp [hp, h1]⟩
    · exact Or.inr ⟨rfl, h2, by simp [hp, h1]⟩

/-- The entry that `SetupPageMap` goes through next has been made usable. -/
theorem Grows.ensure (hs : Sound own s T n pageMap) (hi : i ∈ T) (hw : own = true → w = true)
    (habs : own = true → n = 0 → (s.mem pageMap i).present = false)
    (h : s.setNewPageMapIfNotPresent pageMap i = (.ok childMap, s₁))
    (h' : s' = s₁.setEntry pageMap i (((s₁.mem pageMap i).setUser true).setWritable (if n + 1 = 1 then w else true))) :
    (∃ Y Z, Grows own s s' T n pageMap {k | n = 0 ∧ k = i} Y Z ∧
      (n = 0 → pageIn s.mem 0 pageMap i = some childMap ∨ childMap ∈ Z)) ∧
    (s'.mem pageMap i).present = true ∧ (s'.mem pageMap i).pointer = childMap := by
  generalize hbit : (if n + 1 = 1 then w else true) = bit at h'
  have hwr : 0 < n → bit = true := fun hn => by rw [← hbit, if_neg (by omega)]
  have hown : own = true → bit = true := fun ho => by
    rw [← hbit, hw ho]
    split <;> rfl
  rcases setNewPageMapIfNotPresent_cases s pageMap i with ⟨hp, h1⟩ | ⟨hp, frame, s₂, h2, h3, h1⟩ | ⟨-, -, h1⟩
  · rw [h1] at h
    cases h
    have hn : own = true → 0 < n := fun ho => by
      rcases Nat.eq_zero_or_pos n with rfl | hn
      · rw [habs ho rfl] at hp
        cases hp
      · exact hn
    have hflags : Grows own s s' T n pageMap ∅ 0 0 := h' ▸ .flags hs hi hn rfl rfl rfl rfl hwr
    refine ⟨⟨0, 0, hflags.mono (Set.empty_subset _), fun _ => Or.inl ?_⟩, ?_, ?_⟩
    · rw [pageIn, Nat.pow_zero, Nat.div_one, pageBelow, if_pos hp]
    · simpa [h', Machine.setEntry] using hp
    · simp [h', Machine.setEntry]
  · rw [h1] at h
    cases h
    have hpm : s₂.mem pageMap = s.mem pageMap := by rw [h3, Function.update_of_ne (h2.ne hs.pageMap_allocated)]
    rw [hpm, Machine.setEntry_setEntry, Machine.setEntry_mem] at h'
    have hnew := NewEntry.of_newPageMap (n := n) h2 h3 hs.pageMap_allocated h'
    have hptr : (((s.mem pageMap i).setPointer childMap)).pointer = childMap :=
      pointer_setPointer (h2.isFree childMap (Multiset.mem_singleton_self _)).lt
    have hself := hnew.pageMap_mem
    obtain ⟨Y, Z, -, hpage, -, hgrows⟩ := Grows.new hs hi (Or.inl hp) hnew rfl hptr (fun hold => hold.2)
      (fun _ => rfl) hwr hown
    refine ⟨⟨Y, Z, hgrows, fun hn => Or.inr ?_⟩, ?_, ?_⟩
    · rw [hpage hn]
      exact Multiset.mem_singleton_self _
    · rw [hself, Function.update_self]
      rfl
    · rw [hself, Function.update_self]
      exact hptr
  · rw [h1] at h
    cases h

/-! ### All entries -/

/-- The numbers of the pages asked for: `num` pages from an address on, as far as the page map goes. -/
def asked (n : ℕ) (addr : LinearAddress4Level) (num : ℕ) : Set ℕ :=
  {k | addr.pageNumber (n + 1) ≤ k ∧ k < addr.pageNumber (n + 1) + num ∧ k < 512 ^ (n + 1)}

/-- What setting pages up does to a page map, whatever the result. If all went well the pages asked for are
there; those that were not there before are new. -/
structure SetsUp (own : Bool) (s s' : Machine) (T : Finset ℕ) (n pageMap : ℕ) (addr : LinearAddress4Level) (num : ℕ)
    (r : Except Error ℕ) : Prop where
  grows : ∃ Y Z, Grows own s s' T n pageMap (asked n addr num) Y Z ∧ ∀ num', r = .ok num' → ∀ k ∈ asked n addr num,
    ∃ f, pageIn s'.mem n pageMap k = some f ∧ (pageIn s.mem n pageMap k = some f ∨ f ∈ Z)
  remain : ∀ num', r = .ok num' → num' = num - (512 ^ (n + 1) - addr.pageNumber (n + 1))

theorem asked_zero : asked n addr 0 = ∅ := by
  ext k
  simp only [asked, Set.mem_ofPred_eq, Set.mem_empty_iff_false, iff_false]
  omega

theorem asked_slot {k : ℕ} (hT : ∀ i, addr.part (n + 1) ≤ i → i < 512 → i ∈ T) (hk : k ∈ asked n addr num) :
    k / 512 ^ n ∈ T := by
  obtain ⟨h1, -, h3⟩ := hk
  have hpos : 0 < 512 ^ n := Nat.pow_pos (by decide)
  refine hT _ ((Nat.le_div_iff_mul_le hpos).mpr ?_) (Nat.div_lt_of_lt_mul (by rwa [Nat.pow_succ] at h3))
  rw [LinearAddress4Level.pageNumber] at h1
  omega

/-- The pages asked for below the first entry, and those below the ones after it. -/
theorem asked_cases {k : ℕ} (h4 : n + 1 ≤ 4) (hk : k ∈ asked n addr num) :
    (k / 512 ^ n = addr.part (n + 1) ∧ addr.pageNumber n ≤ k % 512 ^ n ∧ k % 512 ^ n < addr.pageNumber n + num) ∨
    (addr.part (n + 1) + 1 < 512 ∧ k / 512 ^ n ≠ addr.part (n + 1) ∧
      k ∈ asked n ((addr.setPart (n + 1) (addr.part (n + 1) + 1)).clearParts n)
          (num - (512 ^ n - addr.pageNumber n))) := by
  obtain ⟨h1, h2, h3⟩ := hk
  have hpos : 0 < 512 ^ n := Nat.pow_pos (by decide)
  have hlow := addr.pageNumber_lt (n := n)
  have hdiv := Nat.div_add_mod k (512 ^ n)
  have hmod := Nat.mod_lt k hpos
  rw [LinearAddress4Level.pageNumber] at h1 h2
  rw [Nat.mul_comm] at hdiv
  have hle : addr.part (n + 1) ≤ k / 512 ^ n := (Nat.le_div_iff_mul_le hpos).mpr (by omega)
  rcases Nat.lt_or_eq_of_le hle with hlt | heq
  · right
    have hslot : k / 512 ^ n < 512 := Nat.div_lt_of_lt_mul (by rwa [Nat.pow_succ] at h3)
    have hnext : addr.part (n + 1) + 1 < 512 := by omega
    obtain ⟨hp, hz⟩ := LinearAddress4Level.pageNumber_next h4 hnext
    have hmul := Nat.mul_le_mul_right (512 ^ n) hlt
    rw [Nat.succ_mul] at hmul
    refine ⟨hnext, Nat.ne_of_gt hlt, ?_, ?_, h3⟩
    · rw [LinearAddress4Level.pageNumber, hp, hz, Nat.add_mul, Nat.one_mul]
      omega
    · rw [LinearAddress4Level.pageNumber, hp, hz, Nat.add_mul, Nat.one_mul]
      omega
  · left
    rw [← heq] at hdiv
    exact ⟨heq.symm, by omega, by omega⟩

theorem asked_first {k : ℕ} (h : k / 512 ^ n = addr.part (n + 1)) (hge : addr.pageNumber n ≤ k % 512 ^ n)
    (hlt : k % 512 ^ n < addr.pageNumber n + num) : k ∈ asked n addr num := by
  have hpart := addr.part_lt (Nat.succ_ne_zero n)
  have hdiv := Nat.div_add_mod k (512 ^ n)
  rw [h, Nat.mul_comm] at hdiv
  refine ⟨?_, ?_, ?_⟩
  · rw [LinearAddress4Level.pageNumber]
    omega
  · rw [LinearAddress4Level.pageNumber]
    omega
  · have hpos : 0 < 512 ^ n := Nat.pow_pos (by decide)
    rw [← h, Nat.div_lt_iff_lt_mul hpos, Nat.mul_comm] at hpart
    rwa [Nat.pow_succ]

theorem asked_next {k : ℕ} (h4 : n + 1 ≤ 4) (hlt : addr.part (n + 1) + 1 < 512)
    (hk : k ∈ asked n ((addr.setPart (n + 1) (addr.part (n + 1) + 1)).clearParts n)
    (num - (512 ^ n - addr.pageNumber n))) :
    k ∈ asked n addr num ∧ k / 512 ^ n ≠ addr.part (n + 1) := by
  obtain ⟨h1, h2, h3⟩ := hk
  obtain ⟨hp, hz⟩ := LinearAddress4Level.pageNumber_next h4 hlt
  have hlow := addr.pageNumber_lt (n := n)
  rw [LinearAddress4Level.pageNumber, hp, hz, Nat.add_mul, Nat.one_mul] at h1 h2
  refine ⟨⟨?_, ?_, h3⟩, fun he => ?_⟩
  · rw [LinearAddress4Level.pageNumber]
    omega
  · rw [LinearAddress4Level.pageNumber]
    omega
  · have hmod := Nat.mod_lt k (Nat.pow_pos (n := n) (by decide : 0 < 512))
    have hdiv := Nat.div_add_mod k (512 ^ n)
    rw [he, Nat.mul_comm] at hdiv
    omega

/-- What setting pages up below one entry does to the page map with the entry. -/
structure SetsUpEntry (own : Bool) (s s' : Machine) (T : Finset ℕ) (n pageMap : ℕ) (addr : LinearAddress4Level)
    (num : ℕ) (r : Except Error ℕ) : Prop where
  grows : ∃ Y Z, Grows own s s' T n pageMap {k | k ∈ asked n addr num ∧ k / 512 ^ n = addr.part (n + 1)} Y Z ∧
    ∀ num', r = .ok num' → ∀ k ∈ asked n addr num, k / 512 ^ n = addr.part (n + 1) →
      ∃ f, pageIn s'.mem n pageMap k = some f ∧ (pageIn s.mem n pageMap k = some f ∨ f ∈ Z)
  remain : ∀ num', r = .ok num' → num' = num - (512 ^ n - addr.pageNumber n)

/-- The page of an entry of the lowest level. -/
theorem setsUpEntry_page (hp : (s.mem pageMap (addr.part 1)).present = true) :
    SetsUpEntry own s s T 0 pageMap addr num (.ok (num - 1)) where
  grows := by
    refine ⟨0, 0, .refl, fun _ _ k _ hk => ⟨(s.mem pageMap (addr.part 1)).pointer, ?_⟩⟩
    have hthere : pageIn s.mem 0 pageMap k = some (s.mem pageMap (addr.part 1)).pointer := by
      rw [pageIn, hk, pageBelow, if_pos hp]
    exact ⟨hthere, Or.inl hthere⟩
  remain := fun num' h => by
    cases h
    rfl

/-- The page map below an entry. -/
theorem SetsUp.entry {r : Except Error ℕ} (h4 : n + 2 ≤ 4) (hs : Sound own s T (n + 1) pageMap)
    (hi : addr.part (n + 2) ∈ T) (hp : (s.mem pageMap (addr.part (n + 2))).present = true)
    (h : SetsUp own s s' slots n (s.mem pageMap (addr.part (n + 2))).pointer addr num r) :
    SetsUpEntry own s s' T (n + 1) pageMap addr num r := by
  obtain ⟨Y, Z, hgrows, hpages⟩ := h.grows
  have hself := hgrows.pageMap_eq hs hi hp
  refine ⟨⟨Y, Z, (hgrows.lift hs hi hp).mono ?_, fun num' hr k hk hki => ?_⟩, h.remain⟩
  · rintro k ⟨hki, h1, h2, -⟩
    exact ⟨asked_first hki h1 h2, hki⟩
  · rw [pageIn, pageIn, hki, hself, pageBelow_succ hp, pageBelow_succ hp]
    obtain ⟨-, h1, h2⟩ := (asked_cases h4 hk).resolve_right fun hnext => hnext.2.1 hki
    exact hpages num' hr _ ⟨h1, h2, Nat.mod_lt _ (Nat.pow_pos (by decide))⟩

/-- What one round of the loop over the entries can do. -/
theorem setupEntries_round {setupChild : ℕ → LinearAddress4Level → ℕ → Machine → Except Error ℕ × Machine}
    {fuel level : ℕ} {r : Except Error ℕ} (hnum : num ≠ 0)
    (h : Machine.setupEntries setupChild pageMap level w (fuel + 1) addr num s = (r, s')) :
    (s.setNewPageMapIfNotPresent pageMap (addr.part level) = (r.map fun _ => 0, s') ∧ ∃ err, r = .error err) ∨
    ∃ childMap s₁, s.setNewPageMapIfNotPresent pageMap (addr.part level) = (.ok childMap, s₁) ∧
      ∃ s₂, s₂ = s₁.setEntry pageMap (addr.part level)
        (((s₁.mem pageMap (addr.part level)).setUser true).setWritable (if level = 1 then w else true)) ∧
      ((setupChild childMap addr num s₂ = (r, s') ∧ ((∃ err, r = .error err) ∨ addr.part level = 511)) ∨
        addr.part level ≠ 511 ∧ ∃ num₁ s₃, setupChild childMap addr num s₂ = (.ok num₁, s₃) ∧
        Machine.setupEntries setupChild pageMap level w fuel
          ((addr.setPart level (addr.part level + 1)).clearParts (level - 1)) num₁ s₃ = (r, s')) := by
  unfold Machine.setupEntries at h
  rw [if_neg hnum] at h
  rcases hset : s.setNewPageMapIfNotPresent pageMap (addr.part level) with ⟨err | childMap, s₁⟩
  · simp only [hset] at h
    cases h
    exact Or.inl ⟨rfl, err, rfl⟩
  · simp only [hset] at h
    refine Or.inr ⟨childMap, s₁, rfl, _, rfl, ?_⟩
    rcases hcall : setupChild childMap addr num _ with ⟨err | num₁, s₃⟩
    · simp only [hcall] at h
      cases h
      exact Or.inl ⟨rfl, Or.inl ⟨err, rfl⟩⟩
    · simp only [hcall] at h
      by_cases hlast : addr.part level = 511
      · rw [if_pos hlast] at h
        cases h
        exact Or.inl ⟨rfl, Or.inr hlast⟩
      · rw [if_neg hlast] at h
        exact Or.inr ⟨hlast, num₁, s₃, rfl, h⟩

theorem same_or_new {a b : Option ℕ} {f : ℕ} {Z Z' : Multiset ℕ} (h : b = some f → a = some f ∨ f ∈ Z)
    (h' : b = some f ∨ f ∈ Z') : a = some f ∨ f ∈ Z + Z' := by
  rw [Multiset.mem_add]
  rcases h' with h' | h'
  · exact (h h').imp_right Or.inl
  · exact Or.inr (Or.inr h')

/-- The entry has been made usable before. -/
theorem SetsUpEntry.of_ensured {r : Except Error ℕ} (hT : ∀ i, addr.part (n + 1) ≤ i → i < 512 → i ∈ T)
    (hfirst : n = 0 → addr.part (n + 1) ∈ asked n addr num)
    (hX : Grows own s s₁ T n pageMap {k | n = 0 ∧ k = addr.part (n + 1)} Y Z)
    (hp : (s₁.mem pageMap (addr.part (n + 1))).present = true)
    (hpage : n = 0 → pageIn s.mem 0 pageMap (addr.part (n + 1)) = some (s₁.mem pageMap (addr.part (n + 1))).pointer ∨
      (s₁.mem pageMap (addr.part (n + 1))).pointer ∈ Z)
    (h : SetsUpEntry own s₁ s' T n pageMap addr num r) : SetsUpEntry own s s' T n pageMap addr num r := by
  have hX' := hX.mono (L := {k | k ∈ asked n addr num ∧ k / 512 ^ n = addr.part (n + 1)}) (by
    rintro k ⟨rfl, rfl⟩
    exact ⟨hfirst rfl, by simp⟩)
  have hnew : ∀ k ∈ asked n addr num, k / 512 ^ n = addr.part (n + 1) → ∀ f, pageIn s₁.mem n pageMap k = some f →
      pageIn s.mem n pageMap k = some f ∨ f ∈ Z := by
    intro k hk hki f hf
    rcases Nat.eq_zero_or_pos n with rfl | hn
    · rw [Nat.pow_zero, Nat.div_one] at hki
      rw [hki, pageIn, Nat.pow_zero, Nat.div_one, pageBelow, if_pos hp, Option.some.injEq] at hf
      rw [hki, ← hf]
      exact hpage rfl
    · rw [hX.pages k (asked_slot hT hk) fun h0 => (Nat.ne_of_gt hn) h0.1] at hf
      exact Or.inl hf
  obtain ⟨Y', Z', hY, hpages⟩ := h.grows
  refine ⟨⟨Y + Y', Z + Z', (hX'.trans hY).mono ?_, fun num' hr k hk hki => ?_⟩, h.remain⟩
  · rintro k (hk | hk)
    · exact hk
    · exact hk
  · obtain ⟨f, hf, hfZ⟩ := hpages num' hr k hk hki
    exact ⟨f, hf, same_or_new (hnew k hk hki f) hfZ⟩

/-- The loop ends with this entry: it is the last one, or setting it up has failed. -/
theorem SetsUpEntry.last {r : Except Error ℕ} (h4 : n + 1 ≤ 4) (hlast : ∀ num', r = .ok num' → addr.part (n + 1) = 511)
    (h : SetsUpEntry own s s' T n pageMap addr num r) : SetsUp own s s' T n pageMap addr num r := by
  obtain ⟨Y, Z, hY, hpages⟩ := h.grows
  refine ⟨⟨Y, Z, hY.mono fun k hk => hk.1, fun num' hr k hk => ?_⟩, fun num' hr => ?_⟩
  · refine hpages num' hr k hk ((asked_cases h4 hk).resolve_right fun hnext => ?_).1
    rw [hlast num' hr] at hnext
    exact absurd hnext.1 (by decide)
  · rw [h.remain num' hr, LinearAddress4Level.pageNumber, hlast num' hr, Nat.pow_succ]
    omega

/-- The loop goes on with the next entry. -/
theorem SetsUpEntry.next {r : Except Error ℕ} (h4 : n + 1 ≤ 4) (hlt : addr.part (n + 1) + 1 < 512)
    (hT : ∀ i, addr.part (n + 1) ≤ i → i < 512 → i ∈ T) {num₁ : ℕ}
    (h : SetsUpEntry own s s₁ T n pageMap addr num (.ok num₁))
    (h' : SetsUp own s₁ s' T n pageMap ((addr.setPart (n + 1) (addr.part (n + 1) + 1)).clearParts n) num₁ r) :
    SetsUp own s s' T n pageMap addr num r := by
  obtain ⟨Y, Z, hY, hpages⟩ := h.grows
  obtain ⟨Y', Z', hZ, hpages'⟩ := h'.grows
  obtain ⟨hpart', hz⟩ := LinearAddress4Level.pageNumber_next h4 hlt
  have hremain := h.remain num₁ rfl
  refine ⟨⟨Y + Y', Z + Z', (hY.trans hZ).mono ?_, fun num' hr k hk => ?_⟩, fun num' hr => ?_⟩
  · rintro k (hk | hk)
    · exact hk.1
    · rw [hremain] at hk
      exact (asked_next h4 hlt hk).1
  · rcases asked_cases h4 hk with hin | ⟨-, hne, hin⟩
    · have hlater : k ∉ asked n ((addr.setPart (n + 1) (addr.part (n + 1) + 1)).clearParts n) num₁ := fun hk' => by
        rw [hremain] at hk'
        exact (asked_next h4 hlt hk').2 hin.1
      rw [hZ.pages k (asked_slot hT hk) hlater]
      obtain ⟨f, hf, hfZ⟩ := hpages num₁ rfl k hk hin.1
      exact ⟨f, hf, hfZ.imp_right fun h => Multiset.mem_add.mpr (Or.inl h)⟩
    · rw [← hremain] at hin
      obtain ⟨f, hf, hfZ⟩ := hpages' num' hr k hin
      rw [hY.pages k (asked_slot hT hk) fun h0 => hne h0.2] at hfZ
      exact ⟨f, hf, hfZ.imp_right fun h => Multiset.mem_add.mpr (Or.inr h)⟩
  · have hlow := addr.pageNumber_lt (n := n)
    have hmul : 512 ^ n * (addr.part (n + 1) + 1) ≤ 512 ^ n * 512 := Nat.mul_le_mul_left _ (Nat.le_of_lt hlt)
    rw [h'.remain num' hr, hremain, LinearAddress4Level.pageNumber, LinearAddress4Level.pageNumber, hpart', hz,
      Nat.pow_succ, Nat.mul_comm _ (512 ^ n), Nat.mul_comm _ (512 ^ n)]
    rw [Nat.mul_add, Nat.mul_one] at hmul ⊢
    omega

/-- The loop over the entries does to the page map what is done for each of them. -/
theorem setupEntries_spec (h4 : n + 1 ≤ 4) (hw : own = true → w = true)
    {setupChild : ℕ → LinearAddress4Level → ℕ → Machine → Except Error ℕ × Machine}
    (hchild : ∀ s s' addr num r, Sound own s T n pageMap → addr.part (n + 1) ∈ T →
      (s.mem pageMap (addr.part (n + 1))).present = true → num ≠ 0 →
      (own = true → 0 < n → ∀ k ∈ asked n addr num, pageIn s.mem n pageMap k = none) →
      setupChild (s.mem pageMap (addr.part (n + 1))).pointer addr num s = (r, s') →
      SetsUpEntry own s s' T n pageMap addr num r)
    {fuel : ℕ} {r : Except Error ℕ} (hfuel : 512 - addr.part (n + 1) ≤ fuel) (hs : Sound own s T n pageMap)
    (hT : ∀ i, addr.part (n + 1) ≤ i → i < 512 → i ∈ T)
    (habs : own = true → ∀ k ∈ asked n addr num, pageIn s.mem n pageMap k = none)
    (h : Machine.setupEntries setupChild pageMap (n + 1) w fuel addr num s = (r, s')) :
    SetsUp own s s' T n pageMap addr num r := by
  have hpart : addr.part (n + 1) < 512 := addr.part_lt (Nat.succ_ne_zero n)
  induction fuel generalizing addr num s with
  | zero => omega
  | succ fuel ih =>
    by_cases hnum : num = 0
    · subst hnum
      unfold Machine.setupEntries at h
      rw [if_pos rfl] at h
      cases h
      refine ⟨⟨0, 0, .refl, fun _ _ k hk => ?_⟩, fun num' hr => ?_⟩
      · rw [asked_zero] at hk
        cases hk
      · cases hr
        exact (Nat.zero_sub _).symm
    · have hi := hT _ (Nat.le_refl _) hpart
      rcases setupEntries_round hnum h with ⟨hset, err, rfl⟩ | ⟨childMap, s₁, hset, s₂, hs₂, hround⟩
      · -- no frame for a new page map: nothing has changed
        rcases setNewPageMapIfNotPresent_cases s pageMap (addr.part (n + 1)) with
          ⟨-, h1⟩ | ⟨-, _, _, -, -, h1⟩ | ⟨-, -, h1⟩
        · rw [h1] at hset
          cases hset
        · rw [h1] at hset
          cases hset
        · rw [h1] at hset
          cases hset
          exact ⟨⟨0, 0, .refl, fun _ hr => by cases hr⟩, fun _ hr => by cases hr⟩
      · have hfirst : n = 0 → addr.part (n + 1) ∈ asked n addr num := by
          rintro rfl
          exact asked_first (by simp) (Nat.zero_le _) (by simp [LinearAddress4Level.pageNumber]; omega)
        have habsent : own = true → n = 0 → (s.mem pageMap (addr.part (n + 1))).present = false := by
          intro ho hn
          have hnone := habs ho _ (hfirst hn)
          subst hn
          simpa [pageIn, pageBelow] using hnone
        obtain ⟨⟨Y, Z, hX, hpage⟩, hp, hptr⟩ := Grows.ensure hs hi hw habsent hset hs₂
        have habs' : own = true → 0 < n → ∀ k ∈ asked n addr num, pageIn s₂.mem n pageMap k = none := by
          intro ho hn k hk
          rw [hX.pages k (asked_slot hT hk) fun h0 => (Nat.ne_of_gt hn) h0.1]
          exact habs ho k hk
        subst hptr
        rcases hround with ⟨hcall, hlast⟩ | ⟨hlast, num₁, s₃, hcall, hrest⟩
        · -- the call failed, or this was the last entry
          have hdone := (hchild s₂ s' addr num r (hX.sound hs) hi hp hnum habs' hcall).of_ensured hT hfirst hX hp hpage
          refine hdone.last h4 fun num' hr => hlast.resolve_left ?_
          rintro ⟨err, herr⟩
          rw [herr] at hr
          cases hr
        · -- on to the next entry
          have hdone := (hchild s₂ s₃ addr num _ (hX.sound hs) hi hp hnum habs' hcall).of_ensured hT hfirst hX hp hpage
          obtain ⟨Y', Z', hY, -⟩ := hdone.grows
          have hlt : addr.part (n + 1) + 1 < 512 := by omega
          have hpart' := (LinearAddress4Level.pageNumber_next h4 hlt).1
          rw [Nat.add_sub_cancel] at hrest
          refine hdone.next h4 hlt hT (ih (by omega) (hY.sound hs)
            (fun j hj hj' => hT j (by omega) hj') ?_ hrest (by omega))
          intro ho k hk
          rw [hdone.remain num₁ rfl] at hk
          obtain ⟨hk', hne⟩ := asked_next h4 hlt hk
          rw [hY.pages k (asked_slot hT hk') fun h0 => hne h0.2]
          exact habs ho k hk'

/-- **Setting pages up** makes the page map grow by free frames, and changes only the pages asked for. -/
theorem setupPageMap_spec {r : Except Error ℕ} (h4 : n + 1 ≤ 4) (hw : own = true → w = true)
    (hs : Sound own s T n pageMap) (hT : ∀ i, addr.part (n + 1) ≤ i → i < 512 → i ∈ T)
    (habs : own = true → ∀ k ∈ asked n addr num, pageIn s.mem n pageMap k = none)
    (h : Machine.setupPageMap w (n + 1) pageMap addr num s = (r, s')) : SetsUp own s s' T n pageMap addr num r := by
  induction n generalizing T pageMap addr num s r s' with
  | zero =>
    unfold Machine.setupPageMap at h
    refine setupEntries_spec h4 hw ?_ (by omega) hs hT habs h
    intro s s' addr num r _ _ hp _ _ hcall
    cases hcall
    exact setsUpEntry_page hp
  | succ n ih =>
    unfold Machine.setupPageMap at h
    refine setupEntries_spec h4 hw ?_ (by omega) hs hT habs h
    intro s s' addr num r hs hi hp _ habs hcall
    refine (ih (by omega) (hs.child hi hp) (fun i _ hi => mem_slots.mpr hi) (fun ho k hk => ?_) hcall).entry h4 hs hi hp
    have hdiv : (addr.part (n + 2) * 512 ^ (n + 1) + k) / 512 ^ (n + 1) = addr.part (n + 2) := by
      rw [Nat.mul_comm, Nat.mul_add_div (Nat.pow_pos (by decide)), Nat.div_eq_of_lt hk.2.2, Nat.add_zero]
    have hmod : (addr.part (n + 2) * 512 ^ (n + 1) + k) % 512 ^ (n + 1) = k := by
      rw [Nat.mul_comm, Nat.mul_add_mod, Nat.mod_eq_of_lt hk.2.2]
    have hnone := habs ho (Nat.succ_pos n) _ (asked_first hdiv (by rw [hmod]; exact hk.1) (by rw [hmod]; exact hk.2.1))
    rwa [pageIn, hdiv, hmod, pageBelow_succ hp] at hnone

/-! ### Failing for want of frames -/

theorem setupEntries_error {setupChild : ℕ → LinearAddress4Level → ℕ → Machine → Except Error ℕ × Machine}
    {pageMap level fuel : ℕ} {w : Bool} {err : Error}
    (hchild : ∀ childMap addr num s s' err, setupChild childMap addr num s = (.error err, s') → err = .noEnoughMemory)
    (h : Machine.setupEntries setupChild pageMap level w fuel addr num s = (.error err, s')) :
    err = .noEnoughMemory := by
  induction fuel generalizing addr num s with
  | zero => cases h
  | succ fuel ih =>
    by_cases hnum : num = 0
    · subst hnum
      unfold Machine.setupEntries at h
      rw [if_pos rfl] at h
      cases h
    · rcases setupEntries_round hnum h with ⟨hset, err', herr⟩ | ⟨childMap, s₁, -, s₂, -, hround⟩
      · rcases setNewPageMapIfNotPresent_cases s pageMap (addr.part level) with
          ⟨-, h1⟩ | ⟨-, _, _, -, -, h1⟩ | ⟨-, -, h1⟩
        all_goals
          rw [h1] at hset
          cases hset
        rfl
      · rcases hround with ⟨hcall, -⟩ | ⟨-, num₁, s₃, -, hrest⟩
        · exact hchild _ _ _ _ _ _ hcall
        · exact ih hrest

theorem setupPageMaps_error {w : Bool} {err : Error} (h : s.setupPageMaps addr num w = (.error err, s')) :
    err = .noEnoughMemory := by
  have hall : ∀ n pageMap addr num s s' err, Machine.setupPageMap w n pageMap addr num s = (.error err, s') →
      err = .noEnoughMemory := by
    intro n
    induction n with
    | zero => exact fun _ _ _ _ _ _ h => by cases h
    | succ n ih => exact fun _ _ _ _ _ _ h => setupEntries_error ih h
  exact hall 4 _ _ _ _ _ _ h

end DuvuvurKernel
