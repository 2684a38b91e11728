import DuvuvurKernel.Paging.Confinement
import DuvuvurKernel.Paging.Filling
import DuvuvurKernel.Paging.Leaves

/-!
# What `SetupPageMap` maps

`SetupPageMap` opens the way to each page that it is asked for, and sets the bits of the
entry of the page; the entries of all other pages stay as they are (`MapsOnly`). With what it does to
the frames (`SetsUp`, `Fills`) this says exactly what it maps.
-/

namespace DuvuvurKernel

open Lib.TableTrees

/-- A page can be used by an application: the way to it is open, and its entry is open to user mode, and
for writing as asked. -/
def MappedIn (w : Bool) (mem : ℕ → ℕ → PageMapEntry) (n pageMap k : ℕ) : Prop :=
  OpenedIn mem n pageMap k ∧ ∃ e, leafIn mem n pageMap k = some e ∧ e.user = true ∧ e.writable = w

/-- The pages with numbers in `K` have been mapped, and the entries of no other pages have changed. -/
structure MapsOnly (w : Bool) (s s' : Machine) (T : Finset ℕ) (n pageMap : ℕ) (K : Set ℕ) : Prop where
  mapped : ∀ k ∈ K, k / 512 ^ n ∈ T → MappedIn w s'.mem n pageMap k
  others : ∀ k ∉ K, k / 512 ^ n ∈ T → leafIn s'.mem n pageMap k = leafIn s.mem n pageMap k
  keep : ∀ k, k / 512 ^ n ∈ T → OpenedIn s.mem n pageMap k → OpenedIn s'.mem n pageMap k
  plain : Plain s T n pageMap → Plain s' T n pageMap

variable {w : Bool} {e' : PageMapEntry} {s s' s₁ s₂ : Machine} {T : Finset ℕ} {n pageMap i childMap num : ℕ}
    {addr : LinearAddress4Level}
  {K L : Set ℕ} {Y Z : Multiset ℕ}

namespace MapsOnly

theorem refl : MapsOnly w s s T n pageMap ∅ where
  mapped := fun _ hk => absurd hk (Set.notMem_empty _)
  others := fun _ _ _ => rfl
  keep := fun _ _ h => h
  plain := id

theorem trans (h : MapsOnly w s s' T n pageMap K) (h' : MapsOnly w s' s₂ T n pageMap L) :
    MapsOnly w s s₂ T n pageMap (K ∪ L) where
  mapped := by
    intro k hk hT
    by_cases hL : k ∈ L
    · exact h'.mapped k hL hT
    · obtain ⟨ho, e, he, hbits⟩ := h.mapped k (hk.resolve_right hL) hT
      exact ⟨h'.keep k hT ho, e, (h'.others k hL hT).trans he, hbits⟩
  others := by
    intro k hk hT
    rw [Set.mem_union, not_or] at hk
    rw [h'.others k hk.2 hT, h.others k hk.1 hT]
  keep := fun k hT ho => h'.keep k hT (h.keep k hT ho)
  plain := fun hp => h'.plain (h.plain hp)

theorem congr (h : MapsOnly w s s' T n pageMap K) (hK : ∀ k, k / 512 ^ n ∈ T → (k ∈ K ↔ k ∈ L)) :
    MapsOnly w s s' T n pageMap L :=
  { h with
    mapped := fun k hk hT => h.mapped k ((hK k hT).mpr hk) hT
    others := fun k hk hT => h.others k (fun hk' => hk ((hK k hT).mp hk')) hT }

/-- What is done below one entry. -/
theorem of_entry (hs : Sound false s T n pageMap) (hi : i ∈ T)
    (hmem : ∀ x, x ≠ pageMap → x ∉ held (format false) slots s.mem n (s.mem pageMap i) →
      s.memoryManager.getBit x = true → s'.mem x = s.mem x)
    (hentries : ∀ j, j ≠ i → s'.mem pageMap j = s.mem pageMap j)
    (hmapped : ∀ k ∈ K, k / 512 ^ n = i ∧ MappedIn w s'.mem n pageMap k)
    (hothers : ∀ k ∉ K, k / 512 ^ n = i → leafIn s'.mem n pageMap k = leafIn s.mem n pageMap k)
    (hkeep : ∀ k, k / 512 ^ n = i → OpenedIn s.mem n pageMap k → OpenedIn s'.mem n pageMap k)
    (hplain : Every (format false) slots s.mem NoHuge n (s.mem pageMap i) →
      Every (format false) slots s'.mem NoHuge n (s'.mem pageMap i)) : MapsOnly w s s' T n pageMap K where
  mapped := fun k hk _ => (hmapped k hk).2
  others := by
    intro k hk hT
    by_cases hki : k / 512 ^ n = i
    · exact hothers k hk hki
    · rw [leafIn, leafIn, hentries _ hki]
      exact leafBelow_congr (Nat.mod_lt _ (Nat.pow_pos (by decide))) (hs.unchanged hi hT hki hmem)
  keep := by
    intro k hT ho
    by_cases hki : k / 512 ^ n = i
    · exact hkeep k hki ho
    · rw [OpenedIn, hentries _ hki]
      exact opened_congr (Nat.mod_lt _ (Nat.pow_pos (by decide))) (hs.unchanged hi hT hki hmem) ho
  plain := by
    intro hp j hj
    by_cases hji : j = i
    · subst hji
      exact hplain (hp j hj)
    · rw [hentries j hji]
      exact every_congr (hs.unchanged hi hj hji hmem) (hp j hj)

/-- What is done to a page map below an entry that is open. -/
theorem lift (hs : Sound false s T (n + 1) pageMap) (hi : i ∈ T)
    (hopen : (s.mem pageMap i).present = true ∧ (s.mem pageMap i).user = true ∧ (s.mem pageMap i).writable = true ∧
      (s.mem pageMap i).hugePage = false)
    (hg : Grows false s s' slots n (s.mem pageMap i).pointer L Y Z)
    (h : MapsOnly w s s' slots n (s.mem pageMap i).pointer K) :
    MapsOnly w s s' T (n + 1) pageMap {k | k / 512 ^ (n + 1) = i ∧ k % 512 ^ (n + 1) ∈ K} := by
  have hp := hopen.1
  have hself := hg.pageMap_eq hs hi hp
  have hslot : ∀ k, k % 512 ^ (n + 1) / 512 ^ n ∈ slots := fun k => slot_mem (Nat.mod_lt k (Nat.pow_pos (by decide)))
  -- The pages below the entry are those of the page map it points to.
  have hleaf : ∀ mem : ℕ → ℕ → PageMapEntry, mem pageMap = s.mem pageMap → ∀ k, k / 512 ^ (n + 1) = i →
      leafIn mem (n + 1) pageMap k = leafIn mem n (s.mem pageMap i).pointer (k % 512 ^ (n + 1)) := by
    intro mem hmem k hk
    rw [leafIn, hmem, hk, leafBelow_succ hp]
  have hway : ∀ mem : ℕ → ℕ → PageMapEntry, mem pageMap = s.mem pageMap → ∀ k, k / 512 ^ (n + 1) = i →
      (OpenedIn mem (n + 1) pageMap k ↔ OpenedIn mem n (s.mem pageMap i).pointer (k % 512 ^ (n + 1))) := by
    intro mem hmem k hk
    rw [OpenedIn, hmem, hk, Opened, OpenedIn]
    exact and_iff_right hopen
  apply of_entry hs hi
  · intro x _ hx hused
    rw [held_succ_format hp, Multiset.mem_add, Multiset.mem_singleton, not_or] at hx
    exact hg.frame x hx.1 hx.2 (hg.takes.notMem hused)
  · intro j _
    rw [hself]
  · rintro k ⟨hk, hK⟩
    obtain ⟨ho, e, he, hbits⟩ := h.mapped _ hK (hslot k)
    exact ⟨hk, (hway s'.mem hself k hk).mpr ho, e, (hleaf s'.mem hself k hk).trans he, hbits⟩
  · intro k hK hk
    rw [hleaf s'.mem hself k hk, hleaf s.mem rfl k hk]
    exact h.others _ (fun hk' => hK ⟨hk, hk'⟩) (hslot k)
  · intro k hk ho
    rw [hway s'.mem hself k hk]
    exact h.keep _ (hslot k) ((hway s.mem rfl k hk).mp ho)
  · intro hplain
    rw [hself]
    refine ⟨hplain.1, fun c hc => ?_⟩
    rw [child_present hp, Option.some.injEq] at hc
    subst hc
    exact h.plain (hplain.2 _ (child_present hp))

/-- The bits of a present entry are set. -/
theorem flags (hs : Sound false s T n pageMap) (hi : i ∈ T) (hold : (s.mem pageMap i).present = true)
    (hp : e'.present = true) (hptr : e'.pointer = (s.mem pageMap i).pointer)
    (hhuge : e'.hugePage = (s.mem pageMap i).hugePage) (hu : e'.user = true)
    (hw : e'.writable = if n = 0 then w else true) :
    MapsOnly w s (s.setEntry pageMap i e') T n pageMap {k | n = 0 ∧ k = i} := by
  have hself : ∀ j, (s.setEntry pageMap i e').mem pageMap j = Function.update (s.mem pageMap) i e' j := fun j => by
    simp [Machine.setEntry]
  have hmem : ∀ x, x ≠ pageMap → (s.setEntry pageMap i e').mem x = s.mem x := fun x hx => Function.update_of_ne hx _ _
  have hbelow : ∀ x ∈ held (format false) slots s.mem n (s.mem pageMap i), (s.setEntry pageMap i e').mem x = s.mem x :=
    fun x hx => hmem x (hs.ne_of_mem hi hx)
  have hentry : (s.setEntry pageMap i e').mem pageMap i = e' := by rw [hself, Function.update_self]
  apply of_entry hs hi (fun x hx _ _ => hmem x hx)
  · intro j hj
    rw [hself, Function.update_of_ne hj]
  · rintro k ⟨rfl, rfl⟩
    refine ⟨by rw [Nat.pow_zero, Nat.div_one], trivial, e', ?_, hu, hw⟩
    rw [leafIn_leaf (hentry.symm ▸ hp), hentry]
  · intro k hK hk
    cases n with
    | zero => exact absurd ⟨rfl, by rwa [Nat.pow_zero, Nat.div_one] at hk⟩ hK
    | succ n =>
      rw [leafIn, leafIn, hk, hentry, ← leafBelow_congr (Nat.mod_lt _ (Nat.pow_pos (by decide))) hbelow,
        leafBelow_succ hp, leafBelow_succ hold, hptr]
  · intro k hk ho
    cases n with
    | zero => trivial
    | succ n =>
      rw [OpenedIn, hk] at ho
      rw [OpenedIn, hk, hentry]
      have ho' := opened_congr (Nat.mod_lt _ (Nat.pow_pos (by decide))) hbelow ho
      exact ⟨⟨hp, hu, hw, hhuge.trans ho.1.2.2.2⟩, by rw [hptr]; exact ho'.2⟩
  · intro hplain
    rw [hentry]
    cases n with
    | zero => exact fun h => absurd h (Nat.lt_irrefl 0)
    | succ n =>
      have hev := every_congr hbelow hplain
      refine ⟨fun h => hhuge.trans (hplain.1 h), fun c hc => hev.2 c ?_⟩
      rw [child_present hp, hptr] at hc
      rw [child_present hold, hc]

/-- A new frame takes the place of an absent entry. -/
theorem new (hs : Sound false s T n pageMap) (hi : i ∈ T) (hold : (s.mem pageMap i).present = false)
    (hnew : NewEntry s s' n pageMap i e' childMap) (hp : e'.present = true) (hptr : e'.pointer = childMap)
    (hhuge : e'.hugePage = (s.mem pageMap i).hugePage) (hu : e'.user = true)
    (hw : e'.writable = if n = 0 then w else true) :
    MapsOnly w s s' T n pageMap {k | n = 0 ∧ k = i} := by
  have hentry : s'.mem pageMap i = e' := by rw [hnew.pageMap_mem, Function.update_self]
  apply of_entry hs hi
  · intro x hx _ hused
    exact hnew.others x hx (hnew.takes.ne hused)
  · intro j hj
    rw [hnew.pageMap_mem, Function.update_of_ne hj]
  · rintro k ⟨rfl, rfl⟩
    refine ⟨by rw [Nat.pow_zero, Nat.div_one], trivial, e', ?_, hu, hw⟩
    rw [leafIn_leaf (hentry.symm ▸ hp), hentry]
  · intro k hK hk
    cases n with
    | zero => exact absurd ⟨rfl, by rwa [Nat.pow_zero, Nat.div_one] at hk⟩ hK
    | succ n =>
      rw [leafIn, leafIn, hk, hentry, leafBelow_absent hold, leafBelow_succ hp, hptr]
      exact leafIn_zero (hnew.frame_mem (Nat.succ_pos n))
  · intro k hk ho
    cases n with
    | zero => trivial
    | succ n =>
      rw [OpenedIn, hk] at ho
      rw [ho.1.1] at hold
      cases hold
  · intro hplain
    rw [hentry]
    cases n with
    | zero => exact fun h => absurd h (Nat.lt_irrefl 0)
    | succ n =>
      refine ⟨fun h => hhuge.trans (hplain.1 h), fun c hc j _ => ?_⟩
      rw [child_present hp, hptr, Option.some.injEq] at hc
      subst hc
      rw [hnew.frame_mem (Nat.succ_pos n)]
      exact every_of_absent rfl fun _ => rfl

/-- The entry that `SetupPageMap` goes through next. -/
theorem ensure (hs : Sound false s T n pageMap) (hi : i ∈ T)
    (h : s.setNewPageMapIfNotPresent pageMap i = (.ok childMap, s₁))
    (h' : s' = s₁.setEntry pageMap i (((s₁.mem pageMap i).setUser true).setWritable (if n + 1 = 1 then w else true))) :
    MapsOnly w s s' T n pageMap {k | n = 0 ∧ k = i} ∧ (s'.mem pageMap i).user = true ∧
      (s'.mem pageMap i).writable = (if n = 0 then w else true) := by
  have hbit : (if n + 1 = 1 then w else true) = if n = 0 then w else true := if_congr (by omega) rfl rfl
  rw [hbit] at h'
  rw [h', Machine.setEntry_mem]
  refine ⟨?_, rfl, rfl⟩
  rcases setNewPageMapIfNotPresent_cases s pageMap i with ⟨hp, h1⟩ | ⟨hp, frame, s₂, h2, h3, h1⟩ | ⟨-, -, h1⟩
  · rw [h1] at h
    cases h
    exact flags hs hi hp hp rfl rfl rfl rfl
  · rw [h1] at h
    cases h
    have hpm : s₂.mem pageMap = s.mem pageMap := by rw [h3, Function.update_of_ne (h2.ne hs.pageMap_allocated)]
    rw [hpm, Machine.setEntry_setEntry, Machine.setEntry_mem]
    have hptr : ((s.mem pageMap i).setPointer childMap).pointer = childMap :=
      pointer_setPointer (h2.isFree childMap (Multiset.mem_singleton_self _)).lt
    exact new hs hi hp (.of_newPageMap h2 h3 hs.pageMap_allocated rfl) rfl hptr rfl rfl rfl
  · rw [h1] at h
    cases h

/-- The entry has been made usable before. -/
theorem of_ensured (hnum : num ≠ 0) (h : MapsOnly w s s₁ T n pageMap {k | n = 0 ∧ k = addr.part (n + 1)})
    (h' : MapsOnly w s₁ s' T n pageMap {k | 0 < n ∧ k ∈ asked n addr num ∧ k / 512 ^ n = addr.part (n + 1)}) :
    MapsOnly w s s' T n pageMap {k | k ∈ asked n addr num ∧ k / 512 ^ n = addr.part (n + 1)} := by
  refine (h.trans h').congr fun k _ => ?_
  constructor
  · rintro (⟨rfl, rfl⟩ | ⟨-, hk⟩)
    · exact ⟨asked_first (by simp) (Nat.zero_le _) (by simp [LinearAddress4Level.pageNumber]; omega), by simp⟩
    · exact hk
  · rintro ⟨hk, hki⟩
    rcases Nat.eq_zero_or_pos n with rfl | hn
    · exact .inl ⟨rfl, by rwa [Nat.pow_zero, Nat.div_one] at hki⟩
    · exact .inr ⟨hn, hk, hki⟩

/-- This was the last entry. -/
theorem last (h4 : n + 1 ≤ 4) (hlast : addr.part (n + 1) = 511)
    (h : MapsOnly w s s' T n pageMap {k | k ∈ asked n addr num ∧ k / 512 ^ n = addr.part (n + 1)}) :
    MapsOnly w s s' T n pageMap (asked n addr num) := by
  refine h.congr fun k _ => ⟨fun hk => hk.1, fun hk => ⟨hk, ?_⟩⟩
  refine ((asked_cases h4 hk).resolve_right fun hnext => ?_).1
  rw [hlast] at hnext
  exact absurd hnext.1 (by decide)

/-- The loop goes on with the next entry. -/
theorem next (h4 : n + 1 ≤ 4) (hlt : addr.part (n + 1) + 1 < 512)
    (h : MapsOnly w s s₁ T n pageMap {k | k ∈ asked n addr num ∧ k / 512 ^ n = addr.part (n + 1)})
    (h' : MapsOnly w s₁ s' T n pageMap (asked n ((addr.setPart (n + 1) (addr.part (n + 1) + 1)).clearParts n)
      (num - (512 ^ n - addr.pageNumber n)))) : MapsOnly w s s' T n pageMap (asked n addr num) := by
  refine (h.trans h').congr fun k _ => ⟨?_, fun hk => ?_⟩
  · rintro (hk | hk)
    · exact hk.1
    · exact (asked_next h4 hlt hk).1
  · rcases asked_cases h4 hk with hin | hin
    · exact .inl ⟨hk, hin.1⟩
    · exact .inr hin.2.2

end MapsOnly

/-- The loop over the entries. -/
theorem setupEntries_maps (h4 : n + 1 ≤ 4)
    {setupChild : ℕ → LinearAddress4Level → ℕ → Machine → Except Error ℕ × Machine}
    (hchild : ∀ s s' addr num r, Sound false s T n pageMap → Plain s T n pageMap → addr.part (n + 1) ∈ T →
      (s.mem pageMap (addr.part (n + 1))).present = true → (s.mem pageMap (addr.part (n + 1))).user = true →
      (0 < n → (s.mem pageMap (addr.part (n + 1))).writable = true) → 
      setupChild (s.mem pageMap (addr.part (n + 1))).pointer addr num s = (.ok r, s') →
      SetsUpEntry false s s' T n pageMap addr num (.ok r) ∧
      MapsOnly w s s' T n pageMap {k | 0 < n ∧ k ∈ asked n addr num ∧ k / 512 ^ n = addr.part (n + 1)})
    {fuel r : ℕ} (hfuel : 512 - addr.part (n + 1) ≤ fuel) (hs : Sound false s T n pageMap)
    (hplain : Plain s T n pageMap)
    (hT : ∀ i, addr.part (n + 1) ≤ i → i < 512 → i ∈ T)
    (h : Machine.setupEntries setupChild pageMap (n + 1) w fuel addr num s = (.ok r, s')) :
    MapsOnly w s s' T n pageMap (asked n addr num) := by
  have hpart : addr.part (n + 1) < 512 := addr.part_lt (Nat.succ_ne_zero n)
  induction fuel generalizing addr num s with
  | zero => omega
  | succ fuel ih =>
    by_cases hnum : num = 0
    · subst hnum
      unfold Machine.setupEntries at h
      rw [if_pos rfl] at h
      cases h
      rw [asked_zero]
      exact .refl
    · have hi := hT _ (Nat.le_refl _) hpart
      rcases setupEntries_round hnum h with ⟨-, err, herr⟩ | ⟨childMap, s₁, hset, s₂, hs₂, hround⟩
      · cases herr
      · have hown : ∀ {p : Prop}, false = true → p := fun h0 => by cases h0
        obtain ⟨⟨Y, Z, hX, -⟩, hp, hptr⟩ := Grows.ensure hs hi hown hown hset hs₂
        obtain ⟨hmaps, hu, hw⟩ := MapsOnly.ensure hs hi hset hs₂
        have hs' := hX.sound hs
        have hplain' := hmaps.plain hplain
        have hw' : 0 < n → (s₂.mem pageMap (addr.part (n + 1))).writable = true := fun hn => by
          rw [hw, if_neg (Nat.ne_of_gt hn)]
        subst hptr
        -- The pages below this entry.
        have hround' : ∀ s₃ r', setupChild (s₂.mem pageMap (addr.part (n + 1))).pointer addr num s₂ = (.ok r', s₃) →
            SetsUpEntry false s₂ s₃ T n pageMap addr num (.ok r') ∧
            MapsOnly w s s₃ T n pageMap {k | k ∈ asked n addr num ∧ k / 512 ^ n = addr.part (n + 1)} := by
          intro s₃ r' hcall
          obtain ⟨hsets, hmaps'⟩ := hchild s₂ s₃ addr num r' hs' hplain' hi hp hu hw' hcall
          exact ⟨hsets, hmaps.of_ensured hnum hmaps'⟩
        rcases hround with ⟨hcall, hlast⟩ | ⟨hlast, num₁, s₃, hcall, hrest⟩
        · have hlast' : addr.part (n + 1) = 511 := by
            refine hlast.resolve_left ?_
            rintro ⟨err, herr⟩
            cases herr
          exact (hround' s' r hcall).2.last h4 hlast'
        · obtain ⟨hsets, hfirst⟩ := hround' s₃ num₁ hcall
          obtain ⟨Y', Z', hY, -⟩ := hsets.grows
          have hlt : addr.part (n + 1) + 1 < 512 := by omega
          obtain ⟨hpart', -⟩ := LinearAddress4Level.pageNumber_next h4 hlt
          rw [Nat.add_sub_cancel] at hrest
          have hnext := ih (by omega) (hY.sound hs') (hfirst.plain hplain)
            (fun j hj hj' => hT j (by omega) hj') hrest (by omega)
          rw [hsets.remain num₁ rfl] at hnext
          exact hfirst.next h4 hlt hnext

/-- **Setting pages up** maps the pages asked for, and no others. -/
theorem setupPageMap_maps {r : ℕ} (h4 : n + 1 ≤ 4) (hs : Sound false s T n pageMap) (hplain : Plain s T n pageMap)
    (hT : ∀ i, addr.part (n + 1) ≤ i → i < 512 → i ∈ T)
    (h : Machine.setupPageMap w (n + 1) pageMap addr num s = (.ok r, s')) :
    MapsOnly w s s' T n pageMap (asked n addr num) := by
  induction n generalizing T pageMap addr num s r s' with
  | zero =>
    unfold Machine.setupPageMap at h
    refine setupEntries_maps h4 ?_ (by omega) hs hplain hT h
    intro s s' addr num r _ _ _ hp _ _ hcall
    cases hcall
    exact ⟨setsUpEntry_page hp, .congr .refl fun k _ =>
      ⟨fun hk => absurd hk (Set.notMem_empty _), fun hk => absurd hk.1 (Nat.lt_irrefl 0)⟩⟩
  | succ n ih =>
    unfold Machine.setupPageMap at h
    refine setupEntries_maps h4 ?_ (by omega) hs hplain hT h
    intro s s' addr num r hs hplain hi hp hu hw hcall
    have hsound := hs.child hi hp
    have hslots : ∀ i, addr.part (n + 1) ≤ i → i < 512 → i ∈ slots := fun i _ hi => mem_slots.mpr hi
    have hsets : SetsUp false s s' slots n (s.mem pageMap (addr.part (n + 2))).pointer addr num (.ok r) :=
      setupPageMap_spec (by omega) (fun h0 => by cases h0) hsound hslots (fun h0 => by cases h0) hcall
    have hopen := (hplain _ hi).1 (Nat.succ_pos n)
    have hmaps := ih (by omega) hsound (hplain _ hi |>.2 _ (child_present hp)) hslots hcall
    obtain ⟨Y, Z, hg, -⟩ := hsets.grows
    refine ⟨hsets.entry h4 hs hi hp, (hmaps.lift hs hi ⟨hp, hu, hw (Nat.succ_pos n), hopen⟩ hg).congr fun k _ =>
      ⟨?_, ?_⟩⟩
    · rintro ⟨hki, hk⟩
      exact ⟨Nat.succ_pos n, asked_first hki hk.1 hk.2.1, hki⟩
    · rintro ⟨-, hk, hki⟩
      obtain ⟨-, h1, h2⟩ := (asked_cases h4 hk).resolve_right fun hnext => hnext.2.1 hki
      exact ⟨hki, h1, h2, Nat.mod_lt _ (Nat.pow_pos (by decide))⟩

/-! ### The whole call -/

/-- The page maps of an address space, without huge pages in the half of the application. -/
structure AddressSpace (s : Machine) (pml4 : ℕ) : Prop where
  /-- The page maps of the application are in use, and for one purpose each. -/
  tables : Sound false s app 3 pml4
  pages : PagesUsed s app 3 pml4
  plain : Plain s app 3 pml4
  /-- The page maps on the way to the pages of the kernel are in use, and none of these. -/
  kernel : ∀ page : LinearAddress4Level, page.part 4 < 256 →
    ∀ f ∈ tablesOnWay s.mem 3 (s.mem pml4 (page.part 4)) (page.pageNumber 3),
      s.memoryManager.getBit f = true ∧ f ∉ {pml4} + s.below false app 3 pml4

/-- The numbers of the pages from `addr` on, up to the top of the address space. -/
def pagesFrom (addr : LinearAddress4Level) (num : ℕ) : Set ℕ :=
  {k | addr.pageNumber 4 ≤ k ∧ k < addr.pageNumber 4 + min num (512 ^ 4 - addr.pageNumber 4)}

/-- What `SetupPageMap` has mapped when it returns `remain`. -/
structure SetUp (w : Bool) (s s' : Machine) (pml4 : ℕ) (addr : LinearAddress4Level) (num remain : ℕ) : Prop where
  /-- The way to the pages asked for is open, and their entries are present, and open to user mode. -/
  mapped : ∀ k ∈ pagesFrom addr num, MappedIn w s'.mem 3 pml4 k
  /-- So the processor finds them: where they were before, or in a new frame of zeros. -/
  page : ∀ k ∈ pagesFrom addr num, ∃ f, walk s'.mem 3 (s'.mem pml4 (k / 512 ^ 3)) (k % 512 ^ 3) = some ⟨f, w, true⟩ ∧
    (pageIn s.mem 3 pml4 k = some f ∨
      pageIn s.mem 3 pml4 k = none ∧ s.memoryManager.IsFree f ∧ s'.mem f = fun _ => .zero)
  /-- The entries of the other pages of the application are the same, and the processor finds them as before. -/
  others : ∀ k ∉ pagesFrom addr num, k / 512 ^ 3 ∈ app → leafIn s'.mem 3 pml4 k = leafIn s.mem 3 pml4 k ∧
    (leafIn s.mem 3 pml4 k = none ∨ OpenedIn s.mem 3 pml4 k →
      walk s'.mem 3 (s'.mem pml4 (k / 512 ^ 3)) (k % 512 ^ 3) = walk s.mem 3 (s.mem pml4 (k / 512 ^ 3)) (k % 512 ^ 3))
  /-- Those of the kernel, too. -/
  kernel : ∀ page : LinearAddress4Level, page.part 4 < 256 →
    walk s'.mem 3 (s'.mem pml4 (page.part 4)) (page.pageNumber 3) =
      walk s.mem 3 (s.mem pml4 (page.part 4)) (page.pageNumber 3)
  /-- Of the frames in use only page maps have changed. -/
  contents : ∀ f, s.memoryManager.getBit f = true → f ∉ {pml4} + s.below false app 3 pml4 → s'.mem f = s.mem f
  /-- The new frames, `tables` for page maps and `pages` for pages, are all distinct. -/
  frames : ∃ tables pages : Multiset ℕ, (tables + pages).Nodup ∧ (∀ f ∈ tables + pages, s.memoryManager.IsFree f) ∧
    (∀ f, s'.memoryManager.getBit f = true ↔ s.memoryManager.getBit f = true ∨ f ∈ tables + pages) ∧
    s'.below false app 3 pml4 = s.below false app 3 pml4 + tables ∧
    (∀ k ∈ pagesFrom addr num, pageIn s.mem 3 pml4 k = none → ∃ f ∈ pages, pageIn s'.mem 3 pml4 k = some f) ∧
    ∀ k ∈ pagesFrom addr num, ∀ k' ∈ pagesFrom addr num, pageIn s.mem 3 pml4 k = none →
      pageIn s'.mem 3 pml4 k = pageIn s'.mem 3 pml4 k' → k = k'
  /-- The pages that would be past the top remain. -/
  remaining : remain = num - (512 ^ 4 - addr.pageNumber 4)

theorem asked_eq_pagesFrom : asked 3 addr num = pagesFrom addr num := by
  have hlt : addr.pageNumber 4 < 512 ^ 4 := addr.pageNumber_lt
  ext k
  show addr.pageNumber 4 ≤ k ∧ k < addr.pageNumber 4 + num ∧ k < 512 ^ 4 ↔
    addr.pageNumber 4 ≤ k ∧ k < addr.pageNumber 4 + min num (512 ^ 4 - addr.pageNumber 4)
  omega

theorem pagesFrom_mem_app {k : ℕ} (haddr : 256 ≤ addr.part 4) (hk : k ∈ pagesFrom addr num) : k / 512 ^ 3 ∈ app := by
  rw [← asked_eq_pagesFrom] at hk
  exact asked_slot (fun i hi hlt => mem_app.mpr ⟨Nat.le_trans haddr hi, hlt⟩) hk

/-- The walk reads the page maps on the way only. -/
theorem walk_congr_way {mem mem' : ℕ → ℕ → PageMapEntry} {e : PageMapEntry} {k : ℕ}
    (h : ∀ f ∈ tablesOnWay mem n e k, mem' f = mem f) : walk mem' n e k = walk mem n e k := by
  induction n generalizing e k with
  | zero => rfl
  | succ n ih =>
    cases hp : e.present with
    | false => rw [walk_absent hp, walk_absent hp]
    | true =>
      cases hh : e.hugePage with
      | true => simp [walk, hp, hh]
      | false =>
        rw [tablesOnWay, if_neg (by simp [hp, hh])] at h
        rw [walk_succ hp hh, walk_succ hp hh, h _ List.mem_cons_self,
          ih fun f hf => h f (List.mem_cons_of_mem _ hf)]

theorem tablesOnWay_congr {mem mem' : ℕ → ℕ → PageMapEntry} {e : PageMapEntry} {k : ℕ}
    (h : ∀ f ∈ tablesOnWay mem n e k, mem' f = mem f) : tablesOnWay mem' n e k = tablesOnWay mem n e k := by
  induction n generalizing e k with
  | zero => rfl
  | succ n ih =>
    by_cases hstop : e.present = false ∨ e.hugePage = true
    · rw [tablesOnWay, tablesOnWay, if_pos hstop, if_pos hstop]
    · rw [tablesOnWay, if_neg hstop] at h
      rw [tablesOnWay, tablesOnWay, if_neg hstop, if_neg hstop, h _ List.mem_cons_self,
        ih fun f hf => h f (List.mem_cons_of_mem _ hf)]

/-- The processor finds a page that has been mapped. -/
theorem MappedIn.walk {mem : ℕ → ℕ → PageMapEntry} {k : ℕ} (h : MappedIn w mem n pageMap k) :
    ∃ f, pageIn mem n pageMap k = some f ∧
      DuvuvurKernel.walk mem n (mem pageMap (k / 512 ^ n)) (k % 512 ^ n) = some ⟨f, w, true⟩ := by
  obtain ⟨ho, e, he, hu, hw⟩ := h
  refine ⟨e.pointer, ?_, ?_⟩
  · rw [pageIn_eq_leafIn, he]
    rfl
  · rw [leafIn] at he
    rw [walk_of_opened ho, he, Option.map_some, hu, hw]

/-- **`SetupPageMap`** maps exactly the pages asked for. -/
theorem setupPageMap_exact {remain : ℕ} {pml4 : ℕ} (hspace : AddressSpace s pml4) (haddr : 256 ≤ addr.part 4)
    (h : Machine.setupPageMap w 4 pml4 addr num s = (.ok remain, s')) : SetUp w s s' pml4 addr num remain := by
  have hT : ∀ i, addr.part (3 + 1) ≤ i → i < 512 → i ∈ app := fun i hi hlt => mem_app.mpr ⟨Nat.le_trans haddr hi, hlt⟩
  have hlt : ∀ k, k % 512 ^ 3 < 512 ^ 3 := fun k => Nat.mod_lt k (by decide)
  have hmaps := setupPageMap_maps (Nat.le_refl 4) hspace.tables hspace.plain hT h
  rw [asked_eq_pagesFrom] at hmaps
  have hsets : SetsUp false s s' app 3 pml4 addr num (.ok remain) :=
    setupPageMap_spec (Nat.le_refl 4) (fun h0 => by cases h0) hspace.tables hT (fun h0 => by cases h0) h
  obtain ⟨Y, Z, hfills⟩ := setupPageMap_fills (Nat.le_refl 4) hspace.tables hspace.pages hT h
  have hpage : ∀ k ∈ pagesFrom addr num, ∃ f, pageIn s'.mem 3 pml4 k = some f ∧
      walk s'.mem 3 (s'.mem pml4 (k / 512 ^ 3)) (k % 512 ^ 3) = some ⟨f, w, true⟩ ∧
      (pageIn s.mem 3 pml4 k = some f ∨ pageIn s.mem 3 pml4 k = none ∧ f ∈ Z) := by
    intro k hk
    have happ := pagesFrom_mem_app haddr hk
    obtain ⟨f, hf, hw⟩ := (hmaps.mapped k hk happ).walk
    refine ⟨f, hf, hw, ?_⟩
    cases hold : pageIn s.mem 3 pml4 k with
    | none =>
      refine .inr ⟨rfl, (hfills.page k f happ hf).resolve_left fun hsome => ?_⟩
      rw [hold] at hsome
      cases hsome
    | some g =>
      left
      rw [← hf, hfills.keep k g happ hold]
  have hcontents : ∀ f, s.memoryManager.getBit f = true → f ∉ {pml4} + s.below false app 3 pml4 →
      s'.mem f = s.mem f := by
    intro f hused hout
    rw [Multiset.mem_add, Multiset.mem_singleton, not_or] at hout
    exact hfills.grows.frame f hout.1 hout.2 (hfills.grows.takes.notMem hused)
  constructor
  case mapped => exact fun k hk => hmaps.mapped k hk (pagesFrom_mem_app haddr hk)
  case page =>
    intro k hk
    obtain ⟨f, hf, hw, hold⟩ := hpage k hk
    refine ⟨f, hw, hold.imp_right fun ⟨hnone, hZ⟩ => ⟨hnone, ?_, ?_⟩⟩
    · exact hfills.grows.takes.isFree f (Multiset.mem_add.mpr (.inr hZ))
    · exact hfills.zero k f (pagesFrom_mem_app haddr hk) hZ hf
  case others =>
    intro k hk happ
    have hleaf := hmaps.others k hk happ
    refine ⟨hleaf, ?_⟩
    rintro (hnone | hopen)
    · rw [walk_eq_none_of_leaf (hmaps.plain hspace.plain _ happ) (hlt k) (hleaf.trans hnone),
        walk_eq_none_of_leaf (hspace.plain _ happ) (hlt k) hnone]
    · rw [walk_of_opened (hmaps.keep k happ hopen), walk_of_opened hopen]
      exact congrArg _ hleaf
  case kernel =>
    intro page hpage
    have hout : page.part 4 ∉ app := fun hin => absurd hpage (Nat.not_lt.mpr (mem_app.mp hin).1)
    rw [hfills.grows.others _ hout]
    refine walk_congr_way fun f hf => ?_
    obtain ⟨hused, hnot⟩ := hspace.kernel page hpage f hf
    exact hcontents f hused hnot
  case contents => exact hcontents
  case frames =>
    refine ⟨Y, Z, hfills.grows.takes.nodup, hfills.grows.takes.isFree, hfills.grows.takes.getBit, hfills.grows.tables,
      ?_, ?_⟩
    · intro k hk hnone
      obtain ⟨f, hf, -, hold⟩ := hpage k hk
      rw [hnone] at hold
      exact ⟨f, (hold.resolve_left fun h0 => by cases h0).2, hf⟩
    · intro k hk k' hk' hnone heq
      obtain ⟨f, hf, -, hold⟩ := hpage k hk
      rw [hnone] at hold
      have hZ := (hold.resolve_left fun h0 => by cases h0).2
      exact hfills.once k k' f (pagesFrom_mem_app haddr hk) (pagesFrom_mem_app haddr hk') hZ hf (heq ▸ hf)
  case remaining => exact hsets.remain remain rfl

/-- Three pages from the last but one of the address space. -/
theorem setupPageMap_exact_top :
    ∃ s', Machine.setupPageMap false 4 1 (.ofValue 0xffffffffffffe000) 3 identityMapped = (.ok 1, s') ∧
    SetUp false identityMapped s' 1 (.ofValue 0xffffffffffffe000) 3 1 := by
  have hzero : ∀ i ∈ app, identityMapped.mem 1 i = .zero := fun i hi =>
    identityMapped_empty (by have hge := (mem_app.mp hi).1; omega)
  have hbelow : identityMapped.below false app 3 1 = 0 := below_of_absent fun i hi => by
    rw [hzero i hi]
    rfl
  have hspace : AddressSpace identityMapped 1 := by
    refine ⟨⟨?_, ?_⟩, ?_, ?_, ?_⟩
    · rw [hbelow]
      exact Multiset.nodup_singleton 1
    · rw [hbelow]
      intro f hf
      rw [add_zero, Multiset.mem_singleton] at hf
      rw [hf]
      rfl
    · intro k f hk hf
      rw [pageIn, hzero _ hk] at hf
      cases hf
    · intro i hi
      rw [hzero i hi]
      exact every_of_absent rfl fun _ => rfl
    · intro page hpage f hf
      obtain ⟨hlt, hne⟩ := identityMapped_tables page hpage f hf
      rw [hbelow, add_zero, Multiset.mem_singleton]
      exact ⟨by simp [identityMapped, hlt], hne⟩
  have hok : (Machine.setupPageMap false 4 1 (.ofValue 0xffffffffffffe000) 3 identityMapped).1 = .ok 1 := by
    decide +kernel
  exact ⟨_, Prod.ext hok rfl, setupPageMap_exact hspace (by decide) (Prod.ext hok rfl)⟩

end DuvuvurKernel
