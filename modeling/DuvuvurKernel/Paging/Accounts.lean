import DuvuvurKernel.Paging.Cleaning
import DuvuvurKernel.Paging.Copying
import DuvuvurKernel.Paging.PageFault
import DuvuvurKernel.Paging.Setup

/-!
# The frames of running applications

Every running application has a page map, whose entries from 256 on (`app`) are its own:
the page map, the page maps below these entries and the pages they own belong to the run
(`owned`). `Accounts` says that the frames in use are those of the runs, each of one run
and for one purpose, and the frames `base` that belong to no run. What the kernel does
for one run keeps the accounts, and changes no frame of `base`.
-/

namespace DuvuvurKernel

open Lib.TableTrees

/-- The entries of a page map for the upper half of the addresses. -/
def app : Finset ℕ := slotsFrom 256

/-- The frames that belong to a run. -/
def Machine.owned (s : Machine) (pml4 : ℕ) : Multiset ℕ := {pml4} + s.below true app 3 pml4

/-- The entries of a run can be used by it. -/
def Machine.AppUsable (s : Machine) (pml4 : ℕ) : Prop :=
  ∀ i ∈ app, Every (format true) slots s.mem Usable 3 (s.mem pml4 i)

/-- The frames in use, by what they are used for. -/
structure Accounts (base : ℕ → Prop) (s : Machine) (runs : Multiset ℕ) : Prop where
  usable : ∀ r ∈ runs, s.AppUsable r
  nodup : (runs.bind s.owned).Nodup
  bits : ∀ f, s.memoryManager.getBit f = true ↔ base f ∨ f ∈ runs.bind s.owned
  apart : ∀ f ∈ runs.bind s.owned, ¬ base f

/-- What is done for one run changes no frame of `base`, and none of the other runs. -/
def Spares (base : ℕ → Prop) (rest : Multiset ℕ) (s s' : Machine) : Prop :=
  ∀ f, base f ∨ f ∈ rest.bind s.owned → s'.mem f = s.mem f

/-- What the kernel has done for the run `r`. The entries of its page map that are not its own have not
changed. -/
structure Serves (base : ℕ → Prop) (rest : Multiset ℕ) (r : ℕ) (s s' : Machine) : Prop where
  accounts : Accounts base s' (r ::ₘ rest)
  cr3 : s'.cr3 = s.cr3
  spares : Spares base rest s s'
  entries : ∀ i ∉ app, s'.mem r i = s.mem r i

variable {base : ℕ → Prop} {s s' s'' : Machine} {r f : ℕ} {rest runs : Multiset ℕ} {K : Set ℕ} {Y Z : Multiset ℕ}

namespace Accounts

theorem sound (h : Accounts base s (r ::ₘ rest)) : Sound true s app 3 r := by
  have hn := h.nodup
  rw [Multiset.cons_bind, Multiset.nodup_add] at hn
  refine ⟨hn.1, fun f hf => (h.bits f).mpr (.inr ?_)⟩
  rw [Multiset.cons_bind, Multiset.mem_add]
  exact .inl hf

theorem usable_head (h : Accounts base s (r ::ₘ rest)) : s.AppUsable r :=
  h.usable r (Multiset.mem_cons_self r rest)

/-- The frames of another run. -/
theorem other (h : Accounts base s (r ::ₘ rest)) (hf : f ∈ rest.bind s.owned) :
    s.memoryManager.getBit f = true ∧ f ∉ s.owned r := by
  have hn := h.nodup
  rw [Multiset.cons_bind, Multiset.nodup_add] at hn
  refine ⟨(h.bits f).mpr (.inr ?_), fun hr => Multiset.disjoint_left.mp hn.2.2 hr hf⟩
  rw [Multiset.cons_bind, Multiset.mem_add]
  exact .inr hf

theorem base_used (h : Accounts base s (r ::ₘ rest)) (hf : base f) :
    s.memoryManager.getBit f = true ∧ f ∉ s.owned r := by
  refine ⟨(h.bits f).mpr (.inl hf), fun hr => h.apart f ?_ hf⟩
  rw [Multiset.cons_bind, Multiset.mem_add]
  exact .inl hr

end Accounts

/-- The page maps of a run are among its frames. -/
theorem tables_le_owned (s : Machine) (r : ℕ) : {r} + s.below false app 3 r ≤ s.owned r :=
  add_le_add_right below_false_le _

/-- What belongs to a run depends on its page maps only. -/
theorem owned_congr (h : ∀ f ∈ {r} + s.below false app 3 r, s'.mem f = s.mem f) :
    s'.owned r = s.owned r ∧ (s.AppUsable r → s'.AppUsable r) := by
  constructor
  · unfold Machine.owned
    rw [Machine.below_congr h]
  · intro hu
    exact every_entry_congr h hu

namespace Accounts

/-- The other runs are not affected by what changes none of their page maps. -/
theorem rest_congr (hrest : ∀ f ∈ rest.bind s.owned, s'.mem f = s.mem f) :
    rest.bind s'.owned = rest.bind s.owned ∧ ((∀ r ∈ rest, s.AppUsable r) → ∀ r ∈ rest, s'.AppUsable r) := by
  have hone : ∀ r ∈ rest, s'.owned r = s.owned r ∧ (s.AppUsable r → s'.AppUsable r) := by
    intro r hr
    refine owned_congr fun f hf => hrest f (Multiset.mem_bind.mpr ⟨r, hr, ?_⟩)
    exact Multiset.mem_of_le (tables_le_owned s r) hf
  exact ⟨Multiset.bind_congr fun r hr => (hone r hr).1, fun hu r hr => (hone r hr).2 (hu r hr)⟩

theorem spares_trans (h : Spares base rest s s') (h' : Spares base rest s' s'') : Spares base rest s s'' := by
  have hrest : rest.bind s'.owned = rest.bind s.owned ∧ ((∀ r ∈ rest, s.AppUsable r) → ∀ r ∈ rest, s'.AppUsable r) :=
    rest_congr fun f hf => h f (.inr hf)
  intro f hf
  rw [h' f (by rwa [hrest.1]), h f hf]

theorem serves_refl (h : Accounts base s (r ::ₘ rest)) : Serves base rest r s s :=
  ⟨h, rfl, fun _ _ => rfl, fun _ _ => rfl⟩

theorem serves_trans (h : Serves base rest r s s') (h' : Serves base rest r s' s'') : Serves base rest r s s'' where
  accounts := h'.accounts
  cr3 := h'.cr3.trans h.cr3
  spares := spares_trans h.spares h'.spares
  entries := fun i hi => (h'.entries i hi).trans (h.entries i hi)

/-- **A run grows**: the accounts are kept, and no frame of another changes. -/
theorem grow (h : Accounts base s (r ::ₘ rest)) (hg : Grows true s s' app 3 r K Y Z) : Serves base rest r s s' := by
  have hframe : ∀ f, s.memoryManager.getBit f = true ∧ f ∉ s.owned r → s'.mem f = s.mem f := by
    rintro f ⟨hused, hf⟩
    have hf' : f ∉ {r} + s.below false app 3 r := fun hm => hf (Multiset.mem_of_le (tables_le_owned s r) hm)
    rw [Multiset.mem_add, Multiset.mem_singleton, not_or] at hf'
    exact hg.frame f hf'.1 hf'.2 (hg.takes.notMem hused)
  have hrest : rest.bind s'.owned = rest.bind s.owned ∧ ((∀ r ∈ rest, s.AppUsable r) → ∀ r ∈ rest, s'.AppUsable r) :=
    rest_congr fun f hf => hframe f (h.other hf)
  have howned : s'.owned r = s.owned r + (Y + Z) := by
    unfold Machine.owned
    rw [hg.owned rfl, add_assoc]
  have hall : (r ::ₘ rest).bind s'.owned = (r ::ₘ rest).bind s.owned + (Y + Z) := by
    rw [Multiset.cons_bind, Multiset.cons_bind, howned, hrest.1]
    exact add_right_comm _ _ _
  have hfree : ∀ f ∈ Y + Z, s.memoryManager.getBit f = false := fun f hf => (hg.takes.isFree f hf).2
  refine ⟨⟨fun r' hr' => ?_, ?_, fun f => ?_, fun f hf => ?_⟩, hg.takes.cr3, fun f hf => ?_, hg.others⟩
  · rcases Multiset.mem_cons.mp hr' with rfl | hr'
    · exact hg.usable h.usable_head
    · exact hrest.2 (fun r hr => h.usable r (Multiset.mem_cons_of_mem hr)) r' hr'
  · rw [hall, Multiset.nodup_add]
    refine ⟨h.nodup, hg.takes.nodup, Multiset.disjoint_left.mpr fun hf hx => ?_⟩
    exact hg.takes.notMem ((h.bits _).mpr (.inr hf)) hx
  · rw [hg.takes.getBit, h.bits, hall, or_assoc, ← Multiset.mem_add]
  · rw [hall, Multiset.mem_add] at hf
    rcases hf with hf | hf
    · exact h.apart f hf
    · intro hb
      have hused := (h.bits f).mpr (.inl hb)
      rw [hfree f hf] at hused
      cases hused
  · exact hframe f (hf.elim h.base_used h.other)

/-- **A frame of a run that is not one of its page maps changes.** -/
theorem store (h : Accounts base s (r ::ₘ rest)) (hf : f ∈ s.owned r)
    (ht : f ∉ {r} + s.below false app 3 r) (words : ℕ → PageMapEntry) :
    Serves base rest r s (s.setFrame f words) := by
  have hmem : ∀ g, g ≠ f → (s.setFrame f words).mem g = s.mem g := fun g hg =>
    Function.update_of_ne hg _ _
  have hframe : Spares base rest s (s.setFrame f words) := by
    intro g hg
    refine hmem g fun he => ?_
    exact (hg.elim h.base_used h.other).2 (he ▸ hf)
  have hself : (s.setFrame f words).owned r = s.owned r ∧ (s.AppUsable r → (s.setFrame f words).AppUsable r) :=
    owned_congr fun g hg => hmem g fun he => ht (he ▸ hg)
  have hrest : rest.bind (s.setFrame f words).owned = rest.bind s.owned ∧
      ((∀ r ∈ rest, s.AppUsable r) → ∀ r ∈ rest, (s.setFrame f words).AppUsable r) :=
    rest_congr fun g hg => hframe g (.inr hg)
  have hall : (r ::ₘ rest).bind (s.setFrame f words).owned = (r ::ₘ rest).bind s.owned := by
    rw [Multiset.cons_bind, Multiset.cons_bind, hself.1, hrest.1]
  have hne : r ≠ f := fun he => ht (he ▸ Multiset.mem_add.mpr (.inl (Multiset.mem_singleton_self r)))
  refine ⟨⟨fun r' hr' => ?_, ?_, fun g => ?_, fun g hg => ?_⟩, rfl, hframe, fun i _ => congrFun (hmem r hne) i⟩
  · rcases Multiset.mem_cons.mp hr' with rfl | hr'
    · exact hself.2 h.usable_head
    · exact hrest.2 (fun r hr => h.usable r (Multiset.mem_cons_of_mem hr)) r' hr'
  · rw [hall]
    exact h.nodup
  · rw [hall]
    exact h.bits g
  · rw [hall] at hg
    exact h.apart g hg

/-- Another page map is in use. -/
theorem switch (h : Accounts base s runs) (pml4 : ℕ) : Accounts base { s with cr3 := pml4 } runs :=
  ⟨h.usable, h.nodup, h.bits, h.apart⟩

end Accounts

/-! ### Page faults -/

/-- A page that was not in use is now at an address. -/
def NewPage (s s' : Machine) (addr : LinearAddress4Level) : Prop :=
  ∃ p, s'.translate addr = some p ∧ s.memoryManager.IsFree p.frame

variable {addr : LinearAddress4Level} {p : Page} {num n : ℕ}

theorem mem_app {i : ℕ} : i ∈ app ↔ 256 ≤ i ∧ i < 512 := mem_slotsFrom

theorem part_mem_app (ha : 256 ≤ addr.part 4) : addr.part 4 ∈ app :=
  mem_app.mpr ⟨ha, addr.part_lt (by decide)⟩

/-- The page of an address in the page map of a run. -/
theorem pageIn_pageNumber (s : Machine) (r : ℕ) (addr : LinearAddress4Level) :
    pageIn s.mem 3 r (addr.pageNumber 4) = pageBelow s.mem 3 (s.mem r (addr.part 4)) (addr.pageNumber 3) := by
  obtain ⟨hdiv, hmod⟩ := pageNumber_div_mod addr 3
  rw [pageIn, hdiv, hmod]

namespace Accounts

/-- The walk in the page map of a run. -/
theorem translate (h : Accounts base s (r ::ₘ rest)) (hr : s.cr3 = r) (ha : 256 ≤ addr.part 4) :
    (s.translate addr).map Page.frame = pageIn s.mem 3 r (addr.pageNumber 4) ∧
      ∀ p, s.translate addr = some p → p.user = true := by
  rw [pageIn_pageNumber]
  unfold Machine.translate
  rw [hr]
  exact walk_frame (h.usable_head _ (part_mem_app ha)) addr.pageNumber_lt

/-- Setting pages up that are not there yet. -/
theorem setup (h : Accounts base s (r ::ₘ rest)) (hr : s.cr3 = r) (ha : 256 ≤ addr.part 4)
    (habs : ∀ k ∈ asked 3 addr num, pageIn s.mem 3 r k = none) {res : Except Error ℕ}
    (hcall : s.setupPageMaps addr num true = (res, s')) :
    SetsUp true s s' app 3 r addr num res ∧ Serves base rest r s s' := by
  unfold Machine.setupPageMaps at hcall
  rw [hr] at hcall
  have hset := setupPageMap_spec (n := 3) (by decide) (fun _ => rfl) h.sound
    (fun i hi hlt => mem_app.mpr ⟨le_trans ha hi, hlt⟩) (fun _ => habs) hcall
  obtain ⟨Y, Z, hg, -⟩ := hset.grows
  exact ⟨hset, h.grow hg⟩

/-- The one page asked for. -/
theorem asked_one (addr : LinearAddress4Level) : asked 3 addr 1 = {addr.pageNumber 4} := by
  ext k
  constructor
  · rintro ⟨hle, hlt, -⟩
    exact Nat.le_antisymm (Nat.le_of_lt_succ hlt) hle
  · rintro rfl
    exact ⟨Nat.le_refl _, Nat.lt_succ_self _, addr.pageNumber_lt⟩

theorem absent_of_none (h : Accounts base s (r ::ₘ rest)) (hr : s.cr3 = r) (ha : 256 ≤ addr.part 4)
    (hnone : s.translate addr = none) : ∀ k ∈ asked 3 addr 1, pageIn s.mem 3 r k = none := by
  intro k hk
  rw [asked_one, Set.mem_singleton_iff] at hk
  rw [hk, ← (h.translate hr ha).1, hnone]
  rfl

/-- **A page that may be written is stored to.** -/
theorem store_page (h : Accounts base s (r ::ₘ rest)) (hr : s.cr3 = r) (ha : 256 ≤ addr.part 4)
    (hp : s.translate addr = some p) (hw : p.writable = true) (words : ℕ → PageMapEntry) :
    Serves base rest r s (s.setFrame p.frame words) := by
  unfold Machine.translate at hp
  rw [hr] at hp
  have hi := part_mem_app ha
  obtain ⟨hmem, hout⟩ := walk_owned h.sound hi (h.usable_head _ hi) addr.pageNumber_lt hp hw
  refine h.store ?_ hout words
  unfold Machine.owned
  exact Multiset.mem_add.mpr (.inr (mem_below.mpr ⟨_, hi, hmem⟩))

/-- Translation depends on the page maps of the run only. -/
theorem translate_congr (h : ∀ f ∈ {r} + s.below false app 3 r, s'.mem f = s.mem f) (hr : s.cr3 = r) (hr' : s'.cr3 = r)
    (ha : 256 ≤ addr.part 4) : s'.translate addr = s.translate addr := by
  unfold Machine.translate
  rw [hr', hr, pageMap_congr h]
  exact walk_congr (LinearAddress4Level.pageNumber_lt ..) fun x hx => h x (mem_pageMaps (part_mem_app ha) hx)

/-- What `CopyOnePage` does to a page that the run shares. -/
theorem copyOnePage_cases {causalAddr : ℕ} (h : Accounts base s (r ::ₘ rest)) (hr : s.cr3 = r)
    (ha : 256 ≤ (LinearAddress4Level.ofValue causalAddr).part 4)
    (hp : s.translate (.ofValue causalAddr) = some p) (hw : p.writable = false) :
    s.copyOnePage causalAddr = some (.error .noEnoughMemory, s) ∨
      ∃ frame s', s.copyOnePage causalAddr = some (.ok (), s') ∧
      Grows true s s' app 3 r {k | k = (LinearAddress4Level.ofValue causalAddr).pageNumber 4} 0 {frame} ∧
      pageIn s'.mem 3 r ((LinearAddress4Level.ofValue causalAddr).pageNumber 4) = some frame ∧
      (s.memoryManager.getBit p.frame = true → s'.mem frame = s.mem p.frame) := by
  have hi := part_mem_app ha
  unfold Machine.copyOnePage
  rcases newPageMap_cases s with ⟨frame, s₁, hnew, htakes, hmem⟩ | ⟨hnew, -⟩
  · have hoff : ∀ x, x ≠ frame → s₁.mem x = s.mem x := fun x hx => by
      rw [hmem]
      exact Function.update_of_ne hx _ _
    have hr₁ : s₁.cr3 = r := htakes.cr3.trans hr
    -- The new frame is none of the page maps, so the walk still finds the page.
    have htables : ∀ x ∈ {r} + s.below false app 3 r, s₁.mem x = s.mem x := fun x hx =>
      hoff x (htakes.ne (h.sound.tables.allocated x hx))
    have hp₁ : s₁.translate (.ofValue causalAddr) = some p := (translate_congr htables hr hr₁ ha).trans hp
    have hcopied : Takes s₁ (s₁.setFrame frame (s₁.mem p.frame)) 0 := .of_eq rfl rfl
    have htakes' := htakes.trans hcopied
    rw [add_zero] at htakes'
    have hoff' : ∀ x, x ≠ frame → (s₁.setFrame frame (s₁.mem p.frame)).mem x = s.mem x := fun x hx =>
      (Function.update_of_ne hx _ _).trans (hoff x hx)
    rw [Machine.translate, hr] at hp
    obtain ⟨hset, hpage⟩ := setPageContent_spec (n := 3) h.sound hi (h.usable_head _ hi) hp hw htakes' hoff'
    refine .inr ⟨frame, _, ?_, hset, hpage, fun hused => ?_⟩
    · rw [hnew]
      simp only [Machine.translate_pageVaddr, hp₁, Option.bind_eq_bind, Option.bind_some]
      rw [show (s₁.setFrame frame (s₁.mem p.frame)).cr3 = r from hr₁]
      rfl
    · rw [setPageContent_frame (n := 3) h.sound hi (h.usable_head _ hi) hp htakes' hoff', ← hoff _ (htakes.ne hused)]
      exact Function.update_self ..
  · rw [hnew]
    exact .inl rfl

/-- `CopyOnePage`, of a page that the run shares. -/
theorem copyOnePage {causalAddr : ℕ} (h : Accounts base s (r ::ₘ rest)) (hr : s.cr3 = r)
    (ha : 256 ≤ (LinearAddress4Level.ofValue causalAddr).part 4)
    (hp : s.translate (.ofValue causalAddr) = some p) (hw : p.writable = false) :
    ∃ res s', s.copyOnePage causalAddr = some (res, s') ∧ Serves base rest r s s' ∧
      (res = .ok () → NewPage s s' (.ofValue causalAddr)) := by
  rcases h.copyOnePage_cases hr ha hp hw with herr | ⟨frame, s', hcall, hset, hpage, -⟩
  · exact ⟨_, s, herr, serves_refl h, fun hok => by cases hok⟩
  · have hserves := h.grow hset
    refine ⟨_, s', hcall, hserves, fun _ => ?_⟩
    have hframe := (hserves.accounts.translate (hserves.cr3.trans hr) ha).1
    rw [hpage] at hframe
    obtain ⟨q, hq, rfl⟩ := Option.map_eq_some_iff.mp hframe
    exact ⟨q, hq, hset.takes.isFree _ (Multiset.mem_add.mpr (.inr (Multiset.mem_singleton_self _)))⟩

/-- A page that has been set up is a new one, which is stored to. -/
theorem store_new {num : ℕ} (h : Accounts base s (r ::ₘ rest)) (hr : s.cr3 = r) (ha : 256 ≤ addr.part 4)
    (habs : ∀ k ∈ asked 3 addr 1, pageIn s.mem 3 r k = none) (hcall : s.setupPageMaps addr 1 true = (.ok num, s')) :
    ∃ p, s'.translate addr = some p ∧ s.memoryManager.IsFree p.frame ∧ p.frame ∉ {r} + s'.below false app 3 r ∧
      ∀ words, Serves base rest r s (s'.setFrame p.frame words) := by
  obtain ⟨hset, hserves⟩ := h.setup hr ha habs hcall
  have hacc := hserves.accounts
  obtain ⟨Y, Z, hg, hpages⟩ := hset.grows
  have hk : addr.pageNumber 4 ∈ asked 3 addr 1 := by
    rw [asked_one]
    exact Set.mem_singleton _
  obtain ⟨f, hf, hnew⟩ := hpages num rfl _ hk
  have hZ : f ∈ Z := hnew.resolve_left fun hold => by
    rw [habs _ hk] at hold
    cases hold
  obtain ⟨hne, hout⟩ := hg.page_notMem h.sound hZ
  have hown : f ∈ s'.owned r := by
    unfold Machine.owned
    rw [hg.owned rfl]
    exact Multiset.mem_add.mpr (.inr (Multiset.mem_add.mpr (.inr (Multiset.mem_add.mpr (.inr hZ)))))
  have htable : f ∉ {r} + s'.below false app 3 r := by
    rw [Multiset.mem_add, Multiset.mem_singleton, not_or]
    exact ⟨hne, hout⟩
  obtain ⟨p, hwalk, rfl⟩ : ∃ p, s'.translate addr = some p ∧ p.frame = f := by
    have hframe := (hacc.translate (hserves.cr3.trans hr) ha).1
    rw [hf] at hframe
    exact Option.map_eq_some_iff.mp hframe
  refine ⟨p, hwalk, hg.takes.isFree _ (Multiset.mem_add.mpr (.inr hZ)), htable, fun words => ?_⟩
  exact serves_trans hserves (hacc.store hown htable words)

/-- What a walk finds does not depend on frames that are none of the page maps. -/
theorem translate_setFrame (hr : s.cr3 = r) (ha : 256 ≤ addr.part 4)
    (ht : f ∉ {r} + s.below false app 3 r) (words : ℕ → PageMapEntry) :
    (s.setFrame f words).translate addr = s.translate addr := by
  have htables : ∀ x ∈ {r} + s.below false app 3 r, (s.setFrame f words).mem x = s.mem x := fun x hx =>
    Function.update_of_ne (fun he => ht (by rwa [← he])) _ _
  exact translate_congr htables hr hr ha

/-- `PreparePageCache`, of a page that is not there. -/
theorem preparePageCache {t : TaskMemory} {m : FileMapping} {causalAddr : ℕ} (h : Accounts base s (r ::ₘ rest))
    (hr : s.cr3 = r) (ha : 256 ≤ (LinearAddress4Level.ofValue causalAddr).part 4)
    (hp : s.translate (.ofValue causalAddr) = none) :
    ∃ res s', s.preparePageCache t m causalAddr = some (res, s') ∧ Serves base rest r s s' ∧
      (res = .ok () → NewPage s s' (.ofValue causalAddr)) := by
  have hsame : ∀ x : Machine, x.translate (Machine.pageVaddr (.ofValue causalAddr)) =
      x.translate (.ofValue causalAddr) :=
    fun _ => rfl
  have hpart : 256 ≤ (Machine.pageVaddr (.ofValue causalAddr)).part 4 := ha
  unfold Machine.preparePageCache
  generalize Machine.pageVaddr (.ofValue causalAddr) = addr at hsame hpart
  have habs := h.absent_of_none hr hpart ((hsame s).trans hp)
  rcases hcall : s.setupPageMaps addr 1 true with ⟨err | num, s₁⟩
  · obtain ⟨-, hserves⟩ := h.setup hr hpart habs hcall
    exact ⟨.error err, s₁, by simp only [hcall], hserves, fun hok => by cases hok⟩
  · obtain ⟨-, hserves⟩ := h.setup hr hpart habs hcall
    obtain ⟨p, hwalk, hfree, htable, hstore⟩ := h.store_new hr hpart habs hcall
    generalize hwords : storeBytes (s₁.mem p.frame)
      (t.load m.fd ((addr.value + 2 ^ 64 - m.vaddrBegin) % 2 ^ 64)) = words
    refine ⟨.ok (), s₁.setFrame p.frame words, ?_, hstore words, fun _ => ⟨p, ?_, hfree⟩⟩
    · simp only [hcall, hwalk, Option.bind_eq_bind, Option.bind_some, hwords]
      rfl
    · rw [← hsame, translate_setFrame (hserves.cr3.trans hr) hpart htable, hwalk]

/-- **A page fault** of a run at one of its own addresses: the kernel does not fault itself, and
keeps the accounts. -/
theorem fault {t : TaskMemory} {errorCode causalAddr : ℕ} (h : Accounts base s (r ::ₘ rest)) (hr : s.cr3 = r)
    (ha : 256 ≤ (LinearAddress4Level.ofValue causalAddr).part 4) (hraise : s.Raises (.ofValue causalAddr) errorCode) :
    ∃ res s', s.handlePageFault t errorCode causalAddr = some (res, s') ∧ Serves base rest r s s' ∧
      (res = .ok () → NewPage s s' (.ofValue causalAddr)) := by
  unfold Machine.Raises at hraise
  unfold Machine.handlePageFault
  cases hp : s.translate (.ofValue causalAddr) with
  | some p =>
    -- The page is there: it is shared, since a run may do anything else with its pages.
    rw [hp] at hraise
    obtain ⟨hpresent, huser, hdenied⟩ := hraise
    obtain ⟨hrw, hw⟩ := hdenied.resolve_left fun hu => by
      rw [(h.translate hr ha).2 p hp] at hu
      cases hu
    rw [if_pos ⟨hpresent, hrw, huser⟩]
    exact h.copyOnePage hr ha hp hw
  | none =>
    rw [hp] at hraise
    have hpresent : ¬ errorCode % 2 = 1 := by
      rw [hraise]
      decide
    rw [if_neg fun hc => hpresent hc.1, if_neg hpresent]
    split
    · have habs := h.absent_of_none hr ha hp
      rcases hcall : s.setupPageMaps (.ofValue causalAddr) 1 true with ⟨err | num, s₁⟩
      all_goals
        obtain ⟨-, hserves⟩ := h.setup hr ha habs hcall
      · exact ⟨.error err, s₁, rfl, hserves, fun hok => by cases hok⟩
      · obtain ⟨p, hwalk, hfree, -⟩ := h.store_new hr ha habs hcall
        exact ⟨.ok (), s₁, rfl, hserves, fun _ => ⟨p, hwalk, hfree⟩⟩
    · split
      · exact h.preparePageCache hr ha hp
      · exact ⟨.error .indexOutOfRange, s, rfl, serves_refl h, fun hok => by cases hok⟩

end Accounts

end DuvuvurKernel
