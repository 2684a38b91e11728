import DuvuvurKernel.Paging.Accounts
import DuvuvurKernel.Paging.Filling
import DuvuvurKernel.Paging.PageBytes

/-!
# The page that a page fault gives

A page fault that is answered gives the run one page, in a frame that was free, and all other pages stay as they are
(`AddsPage`). `fault_addsPage` says what the page contains.
-/

namespace DuvuvurKernel

open Lib.TableTrees

/-- Only the page `k₀` of a run has changed: it is a frame that was free, with these words. -/
structure AddsPage (s s' : Machine) (r k₀ : ℕ) (words : ℕ → PageMapEntry) : Prop where
  bits : ∀ f, s.memoryManager.getBit f = true → s'.memoryManager.getBit f = true
  page : ∃ f, pageIn s'.mem 3 r k₀ = some f ∧ s'.mem f = words ∧ s.memoryManager.getBit f = false ∧
    s'.memoryManager.getBit f = true ∧ f ∉ {r} + s'.below false app 3 r
  others : ∀ k, k / 512 ^ 3 ∈ app → k ≠ k₀ → pageIn s'.mem 3 r k = pageIn s.mem 3 r k
  frame : ∀ f, s.memoryManager.getBit f = true → f ∉ {r} + s.below false app 3 r → s'.mem f = s.mem f
  tables : ∀ f ∈ {r} + s'.below false app 3 r, f ∈ {r} + s.below false app 3 r ∨ s.memoryManager.getBit f = false

variable {base : ℕ → Prop} {rest : Multiset ℕ} {s s' s₁ : Machine} {r k k₀ f num : ℕ} {words words' : ℕ → PageMapEntry}
  {addr : LinearAddress4Level} {p : Page} {Y Z : Multiset ℕ}

namespace AddsPage

theorem of_grows (hs : Sound true s app 3 r) (hg : Grows true s s' app 3 r {k | k = k₀} Y Z)
    (hpage : pageIn s'.mem 3 r k₀ = some f) (hf : f ∈ Z) (hwords : s'.mem f = words) : AddsPage s s' r k₀ words where
  bits := fun _ hx => hg.takes.mono hx
  page := by
    have hnew : f ∈ Y + Z := Multiset.mem_add.mpr (.inr hf)
    obtain ⟨hne, hout⟩ := hg.page_notMem hs hf
    refine ⟨f, hpage, hwords, (hg.takes.isFree f hnew).2, (hg.takes.getBit f).mpr (.inr hnew), ?_⟩
    rw [Multiset.mem_add, Multiset.mem_singleton, not_or]
    exact ⟨hne, hout⟩
  others := fun k hk hne => hg.pages k hk hne
  frame := fun x hx hout => by
    rw [Multiset.mem_add, Multiset.mem_singleton, not_or] at hout
    exact hg.frame x hout.1 hout.2 (hg.takes.notMem hx)
  tables := fun x hx => by
    rw [hg.tables, ← add_assoc, Multiset.mem_add] at hx
    exact hx.imp_right fun hY => (hg.takes.isFree x (Multiset.mem_add.mpr (.inl hY))).2

/-- The new page is stored to. -/
theorem setFrame (h : AddsPage s s₁ r k₀ words) (hk : k₀ / 512 ^ 3 ∈ app) (hpage : pageIn s₁.mem 3 r k₀ = some f)
    (words' : ℕ → PageMapEntry) : AddsPage s (s₁.setFrame f words') r k₀ words' := by
  obtain ⟨f', hpage', -, hfree, hused, hout⟩ := h.page
  cases hpage.symm.trans hpage'
  have hmem : ∀ x, x ≠ f → (s₁.setFrame f words').mem x = s₁.mem x := fun x hx => Function.update_of_ne hx _ _
  have htables : ∀ x ∈ {r} + s₁.below false app 3 r, (s₁.setFrame f words').mem x = s₁.mem x := by
    intro x hx
    refine hmem x ?_
    rintro rfl
    exact hout hx
  have hbelow : (s₁.setFrame f words').below false app 3 r = s₁.below false app 3 r := Machine.below_congr htables
  refine ⟨h.bits, ⟨f, (pageIn_congr htables hk).trans hpage, Function.update_self .., hfree, hused, ?_⟩,
    fun k hk hne => ?_, fun x hx hxout => ?_, fun x hx => ?_⟩
  · rwa [hbelow]
  · rw [pageIn_congr htables hk]
    exact h.others k hk hne
  · rw [hmem x, h.frame x hx hxout]
    rintro rfl
    rw [hx] at hfree
    cases hfree
  · rw [hbelow] at hx
    exact h.tables x hx

/-- The pages of the run are still in use. -/
theorem used (h : AddsPage s s' r k₀ words) (hu : PagesUsed s app 3 r) : PagesUsed s' app 3 r := by
  intro k f hk hf
  by_cases hne : k = k₀
  · obtain ⟨f', hpage, -, -, hused, -⟩ := h.page
    rw [hne] at hf
    cases hf.symm.trans hpage
    exact hused
  · rw [h.others k hk hne] at hf
    exact h.bits f (hu k f hk hf)

end AddsPage

namespace Accounts

/-- A page is set up where none is: it is zero. -/
theorem setup_addsPage (h : Accounts base s (r ::ₘ rest)) (hu : PagesUsed s app 3 r) (hr : s.cr3 = r)
    (ha : 256 ≤ addr.part 4) (hp : s.translate addr = none) (hcall : s.setupPageMaps addr 1 true = (.ok num, s')) :
    AddsPage s s' r (addr.pageNumber 4) fun _ => .zero := by
  have habs := h.absent_of_none hr ha hp
  have hk : addr.pageNumber 4 ∈ asked 3 addr 1 := by
    rw [asked_one]
    exact Set.mem_singleton _
  have hslot : addr.pageNumber 4 / 512 ^ 3 ∈ app := by
    rw [(pageNumber_div_mod addr 3).1]
    exact part_mem_app ha
  obtain ⟨hset, -⟩ := h.setup hr ha habs hcall
  obtain ⟨Y, Z, hg, hpages⟩ := hset.grows
  obtain ⟨f, hf, hnew⟩ := hpages num rfl _ hk
  have hZ := hnew.resolve_left fun hold => by
    rw [habs _ hk] at hold
    cases hold
  refine .of_grows h.sound (hg.mono ?_) hf hZ ?_
  · rw [asked_one]
    exact fun _ hx => hx
  · unfold Machine.setupPageMaps at hcall
    rw [hr] at hcall
    obtain ⟨Y', Z', hfills⟩ := setupPageMap_fills (n := 3) (by decide) h.sound.tables hu
      (fun i hi hlt => mem_app.mpr ⟨le_trans ha hi, hlt⟩) hcall
    refine hfills.zero _ f hslot ((hfills.page _ f hslot hf).resolve_left fun hold => ?_) hf
    rw [habs _ hk] at hold
    cases hold

/-- `PreparePageCache` fills the page with what `Load` reads. -/
theorem preparePageCache_addsPage {t : TaskMemory} {m : FileMapping} {causalAddr : ℕ} (h : Accounts base s (r ::ₘ rest))
    (hu : PagesUsed s app 3 r) (hr : s.cr3 = r) (ha : 256 ≤ (LinearAddress4Level.ofValue causalAddr).part 4)
    (hp : s.translate (.ofValue causalAddr) = none) (hcall : s.preparePageCache t m causalAddr = some (.ok (), s')) :
    AddsPage s s' r ((LinearAddress4Level.ofValue causalAddr).pageNumber 4) (storeBytes (fun _ => .zero)
      (t.load m.fd (((Machine.pageVaddr (.ofValue causalAddr)).value + 2 ^ 64 - m.vaddrBegin) % 2 ^ 64))) := by
  have hpart : 256 ≤ (Machine.pageVaddr (.ofValue causalAddr)).part 4 := ha
  have hnone : s.translate (Machine.pageVaddr (.ofValue causalAddr)) = none := hp
  have hnumber : (Machine.pageVaddr (.ofValue causalAddr)).pageNumber 4 =
    (LinearAddress4Level.ofValue causalAddr).pageNumber 4 := rfl
  unfold Machine.preparePageCache at hcall
  rw [← hnumber]
  generalize Machine.pageVaddr (.ofValue causalAddr) = addr at hcall hpart hnone ⊢
  rcases hsetup : s.setupPageMaps addr 1 true with ⟨err | num, s₁⟩
  · simp only [hsetup] at hcall
    cases hcall
  · have hadds := h.setup_addsPage hu hr hpart hnone hsetup
    obtain ⟨-, hserves⟩ := h.setup hr hpart (h.absent_of_none hr hpart hnone) hsetup
    simp only [hsetup] at hcall
    obtain ⟨page, hpage, hcall⟩ := Option.bind_eq_some_iff.mp hcall
    cases hcall
    obtain ⟨f, hf, hwords, -⟩ := hadds.page
    have hframe := (hserves.accounts.translate (hserves.cr3.trans hr) hpart).1
    rw [hpage, hf] at hframe
    obtain rfl : page.frame = f := Option.some.inj hframe
    have hslot : addr.pageNumber 4 / 512 ^ 3 ∈ app := by
      rw [(pageNumber_div_mod addr 3).1]
      exact part_mem_app hpart
    rw [hwords]
    exact hadds.setFrame hslot hf _

/-- **A page fault that is answered** gives the run one page: a copy of the page that was there, or a page of zeros, or
what `Load` reads of the file that is mapped there. -/
theorem fault_addsPage {t : TaskMemory} {errorCode causalAddr : ℕ} (h : Accounts base s (r ::ₘ rest))
    (hu : PagesUsed s app 3 r) (hr : s.cr3 = r) (ha : 256 ≤ (LinearAddress4Level.ofValue causalAddr).part 4)
    (hraise : s.Raises (.ofValue causalAddr) errorCode)
    (hcall : s.handlePageFault t errorCode causalAddr = some (.ok (), s')) :
    ∃ words, AddsPage s s' r ((LinearAddress4Level.ofValue causalAddr).pageNumber 4) words ∧
      ((∃ f, pageIn s.mem 3 r ((LinearAddress4Level.ofValue causalAddr).pageNumber 4) = some f ∧ words = s.mem f) ∨
        pageIn s.mem 3 r ((LinearAddress4Level.ofValue causalAddr).pageNumber 4) = none ∧
          ((t.dpagingBegin ≤ causalAddr ∧ causalAddr < t.dpagingEnd) ∧ words = (fun _ => .zero) ∨
            ∃ m, Machine.findFileMapping t.fileMaps causalAddr = some m ∧ words = storeBytes (fun _ => .zero)
              (t.load m.fd (((Machine.pageVaddr (.ofValue causalAddr)).value + 2 ^ 64 - m.vaddrBegin) % 2 ^ 64)))) := by
  have htranslate := h.translate hr ha
  unfold Machine.Raises at hraise
  unfold Machine.handlePageFault at hcall
  cases hp : s.translate (.ofValue causalAddr) with
  | some p =>
    rw [hp] at hraise htranslate
    obtain ⟨hpresent, huser, hdenied⟩ := hraise
    obtain ⟨hrw, hw⟩ := hdenied.resolve_left fun hc => by
      rw [htranslate.2 p rfl] at hc
      cases hc
    rw [if_pos ⟨hpresent, hrw, huser⟩] at hcall
    have hold : pageIn s.mem 3 r ((LinearAddress4Level.ofValue causalAddr).pageNumber 4) = some p.frame :=
      htranslate.1.symm
    have hslot : (LinearAddress4Level.ofValue causalAddr).pageNumber 4 / 512 ^ 3 ∈ app := by
      rw [(pageNumber_div_mod _ 3).1]
      exact part_mem_app ha
    rcases h.copyOnePage_cases hr ha hp hw with herr | ⟨frame, s₁, hcopy, hg, hpage, hwords⟩
    · rw [herr] at hcall
      cases hcall
    · rw [hcopy] at hcall
      cases hcall
      refine ⟨_, .of_grows h.sound hg hpage (Multiset.mem_singleton_self _) (hwords (hu _ _ hslot hold)),
        .inl ⟨_, hold, rfl⟩⟩
  | none =>
    rw [hp] at hraise htranslate
    have hpresent : ¬ errorCode % 2 = 1 := by
      rw [hraise]
      decide
    have hold : pageIn s.mem 3 r ((LinearAddress4Level.ofValue causalAddr).pageNumber 4) = none := htranslate.1.symm
    rw [if_neg fun hc => hpresent hc.1, if_neg hpresent] at hcall
    split at hcall
    next hdemand =>
      rcases hsetup : s.setupPageMaps (.ofValue causalAddr) 1 true with ⟨err | num, s₁⟩
      · rw [hsetup] at hcall
        cases hcall
      · rw [hsetup] at hcall
        cases hcall
        exact ⟨_, h.setup_addsPage hu hr ha hp hsetup, .inr ⟨hold, .inl ⟨hdemand, rfl⟩⟩⟩
    next =>
      split at hcall
      next m hm => exact ⟨_, h.preparePageCache_addsPage hu hr ha hp hcall, .inr ⟨hold, .inr ⟨m, hm, rfl⟩⟩⟩
      next => cases hcall

end Accounts

end DuvuvurKernel
