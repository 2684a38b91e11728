import DuvuvurKernel.Paging.Accounts
import Mathlib.Logic.Relation

/-!
# Running an application

The page maps of `Terminal::ExecuteFile`: `LoadApp` for a file that is in `app_loads`, the
pages for the arguments and the stack, the page faults of the run, and what `CleanPageMaps`
and `FreePML4` do after it.

## The model

A run starts with `enterApp`, what comes before `CallApp`. Then the application takes its
steps (`AppStep`): it stores to its pages, and the kernel handles the page faults it
raises, with what the task happens to map and to page in on demand at that time. In the
end comes `leaveApp`.

**Result** (`frames_conserved`): after the run the frames in use are those before it.
-/

namespace DuvuvurKernel

open Lib.TableTrees

namespace Machine

/-- `SetupPML4`. -/
def setupPML4 (s : Machine) : Except Error ℕ × Machine :=
  match s.newPageMap with
  | (.error err, s) => (.error err, s)
  | (.ok pml4, s) =>
    let s := s.setFrame pml4 fun i => if i < 256 then s.mem s.cr3 i else s.mem pml4 i
    (.ok pml4, { s with cr3 := pml4 })

/-- `FreePML4`, of a task with page map `cr3`. `ResetCR3` goes back to `pml4_table`. -/
def freePML4 (s : Machine) (cr3 pml4Table : ℕ) : Machine :=
  { s with cr3 := pml4Table }.freePageMap cr3

/-- `LoadApp`, of a file with the page map `image` in `app_loads`. -/
def loadApp (s : Machine) (image : ℕ) : Except Error ℕ × Machine :=
  match s.setupPML4 with
  | (.error err, s) => (.error err, s)
  | (.ok tempPml4, s) =>
    match copyPageMaps 3 tempPml4 image 256 s with
    | (.error err, s) => (.error err, s)
    | (.ok (), s) => (.ok tempPml4, s)

/-- `args_frame_addr`. -/
def argsFrameAddr : LinearAddress4Level := .ofValue 0xfffffffffffff000

/-- `stack_frame_addr`. -/
def stackFrameAddr : LinearAddress4Level := .ofValue (0xfffffffffffff000 - 16 * 4096)

/-- Stores to the page of an address, after which it contains `words`. -/
def storePage (s : Machine) (addr : LinearAddress4Level) (words : ℕ → PageMapEntry) : Option Machine :=
  (s.translate addr).map fun page => s.setFrame page.frame words

/-- `ExecuteFile` up to `CallApp`: `argc` and `argv` are what `MakeArgVector` returns and leaves in the
page of the arguments. -/
def enterApp (s : Machine) (image : ℕ) (argc : Except Error ℕ) (argv : ℕ → PageMapEntry) :
    Option (Except Error ℕ × Machine) :=
  match s.loadApp image with
  | (.error err, s) => some (.error err, s)
  | (.ok pml4, s) =>
    match s.setupPageMaps argsFrameAddr 1 true with
    | (.error err, s) => some (.error err, s)
    | (.ok _, s) => do
      let s ← s.storePage argsFrameAddr argv
      match argc with
      | .error err => some (.error err, s)
      | .ok _ =>
        match s.setupPageMaps stackFrameAddr 16 true with
        | (.error err, s) => some (.error err, s)
        | (.ok _, s) => some (.ok pml4, s)

/-- `ExecuteFile` after `CallApp`. The page map of the task is the one in use. -/
def leaveApp (s : Machine) (pml4Table : ℕ) : Machine :=
  (s.cleanPageMaps (.ofValue 0xffff800000000000)).freePML4 s.cr3 pml4Table

end Machine

/-- An address in the half of the applications. -/
def AppAddress (v : ℕ) : Prop := 0xffff800000000000 ≤ v ∧ v < 2 ^ 64

/-- A step of a running application. -/
inductive AppStep : Machine → Machine → Prop where
  /-- It stores to a page it may write to. -/
  | store {s : Machine} {v : ℕ} {page : Page} (words : ℕ → PageMapEntry) : AppAddress v →
      s.translate (.ofValue v) = some page → page.user = true → page.writable = true →
      AppStep s (s.setFrame page.frame words)
  /-- It raises a page fault. -/
  | fault {s s' : Machine} {v errorCode : ℕ} {res : Except Error Unit} (t : TaskMemory) : AppAddress v →
      s.Raises (.ofValue v) errorCode → s.handlePageFault t errorCode v = some (res, s') → AppStep s s'

/-- A page map as it is in `app_loads`, with its frames among `base`. -/
structure Cached (base : ℕ → Prop) (s : Machine) (image : ℕ) : Prop where
  usable : s.AppUsable image
  tables : ∀ f ∈ {image} + s.below false app 3 image, base f
  pages : ∀ k f, k / 512 ^ 3 ∈ app → pageIn s.mem 3 image k = some f → base f

/-- No segment reaches the pages of the stack or of the arguments. -/
def BelowStack (s : Machine) (image : ℕ) : Prop :=
  ∀ k, Machine.stackFrameAddr.pageNumber 4 ≤ k → k < 512 ^ 4 → pageIn s.mem 3 image k = none

variable {base : ℕ → Prop} {s s' s₁ s₂ : Machine} {r f v image pml4 : ℕ} {rest runs : Multiset ℕ}

theorem AppAddress.part (h : AppAddress v) : 256 ≤ (LinearAddress4Level.ofValue v).part 4 := by
  obtain ⟨hge, hlt⟩ := h
  show 256 ≤ v / 2 ^ 39 % 512
  omega

/-- What is done for the runs does not change what is in `app_loads`. -/
theorem Cached.of_spares (h : Cached base s image) (hs : Spares base rest s s') : Cached base s' image ∧
    ∀ k, k / 512 ^ 3 ∈ app → pageIn s'.mem 3 image k = pageIn s.mem 3 image k := by
  have hmem : ∀ f ∈ {image} + s.below false app 3 image, s'.mem f = s.mem f := fun f hf => hs f (.inl (h.tables f hf))
  have hbelow : s'.below false app 3 image = s.below false app 3 image := Machine.below_congr hmem
  refine ⟨⟨(owned_congr hmem).2 h.usable, fun f hf => ?_, fun k f hk hf => ?_⟩, fun k hk => pageIn_congr hmem hk⟩
  · rw [hbelow] at hf
    exact h.tables f hf
  · rw [pageIn_congr hmem hk] at hf
    exact h.pages k f hk hf

theorem argsFrameAddr_pageNumber :
    Machine.argsFrameAddr.pageNumber 4 = Machine.stackFrameAddr.pageNumber 4 + 16 := by decide

theorem aboveStack_mem_app {k : ℕ} (hk : Machine.stackFrameAddr.pageNumber 4 ≤ k) (hlt : k < 512 ^ 4) :
    k / 512 ^ 3 ∈ app := by
  have hstack : Machine.stackFrameAddr.pageNumber 4 = 68719476719 := by decide
  rw [hstack] at hk
  exact mem_app.mpr ⟨by omega, by omega⟩

namespace Accounts

/-! ### The start of a run -/

/-- **A new run**, with page maps of its own that are empty. -/
theorem setupPML4 (h : Accounts base s runs) (hcall : s.setupPML4 = (.ok pml4, s')) :
    Accounts base s' (pml4 ::ₘ runs) ∧ s'.cr3 = pml4 ∧ Spares base runs s s' ∧
      ∀ i, 256 ≤ i → (s'.mem pml4 i).present = false := by
  unfold Machine.setupPML4 at hcall
  rcases newPageMap_cases s with ⟨frame, s₁, hnew, htakes, hmem⟩ | ⟨hnew, -⟩
  · rw [hnew] at hcall
    cases hcall
    generalize hs' : ({ s₁.setFrame pml4 fun i => if i < 256 then s₁.mem s₁.cr3 i else s₁.mem pml4 i with
      cr3 := pml4 } : Machine) = s'
    have hbits : s'.memoryManager = s₁.memoryManager := by
      rw [← hs']
      rfl
    have hother : ∀ f, s.memoryManager.getBit f = true → s'.mem f = s.mem f := by
      intro f hf
      have hne := htakes.ne hf
      rw [← hs']
      refine (Function.update_of_ne hne _ _).trans ?_
      rw [hmem, Function.update_of_ne hne]
    have hempty : ∀ i, 256 ≤ i → s'.mem pml4 i = .zero := by
      intro i hi
      rw [← hs']
      simp [Machine.setFrame, Nat.not_lt.mpr hi, hmem]
    have habsent : ∀ i, 256 ≤ i → (s'.mem pml4 i).present = false := by
      intro i hi
      rw [hempty i hi]
      rfl
    have hfree : s.memoryManager.getBit pml4 = false := (htakes.isFree pml4 (Multiset.mem_singleton_self _)).2
    have hspares : Spares base runs s s' := fun f hf => hother f ((h.bits f).mpr hf)
    have hrest : runs.bind s'.owned = runs.bind s.owned ∧ ((∀ r ∈ runs, s.AppUsable r) → ∀ r ∈ runs, s'.AppUsable r) :=
      rest_congr fun f hf => hspares f (.inr hf)
    have howned : s'.owned pml4 = {pml4} := by
      unfold Machine.owned
      rw [Machine.below, below_of_absent fun i hi => child_absent (habsent i (mem_app.mp hi).1), add_zero]
    have hall : (pml4 ::ₘ runs).bind s'.owned = pml4 ::ₘ runs.bind s.owned := by
      rw [Multiset.cons_bind, howned, hrest.1, Multiset.singleton_add]
    refine ⟨⟨fun r hr => ?_, ?_, fun f => ?_, fun f hf hb => ?_⟩, by rw [← hs'], hspares, habsent⟩
    · rcases Multiset.mem_cons.mp hr with rfl | hr
      · intro i hi
        have hzero := hempty i (mem_app.mp hi).1
        exact every_of_absent (child_absent (habsent i (mem_app.mp hi).1)) (by
          rw [hzero]
          exact ⟨fun hp => (Bool.false_ne_true hp).elim, fun _ => rfl⟩)
      · exact hrest.2 h.usable r hr
    · rw [hall, Multiset.nodup_cons]
      refine ⟨fun hin => ?_, h.nodup⟩
      rw [(h.bits pml4).mpr (.inr hin)] at hfree
      cases hfree
    · rw [hbits, htakes.getBit, h.bits, hall, Multiset.mem_cons, Multiset.mem_singleton]
      tauto
    · rw [hall] at hf
      rcases Multiset.mem_cons.mp hf with rfl | hf
      · rw [(h.bits f).mpr (.inl hb)] at hfree
        cases hfree
      · exact h.apart f hf hb
  · rw [hnew] at hcall
    cases hcall

/-- **`CopyPageMaps`**, from the page map of a cached file. -/
theorem copyPageMaps {res : Except Error Unit} (h : Accounts base s (r ::ₘ rest)) (hk : Cached base s image)
    (habsent : ∀ i, 256 ≤ i → (s.mem r i).present = false) (hcall : Machine.copyPageMaps 3 r image 256 s = (res, s')) :
    Serves base rest r s s' ∧ (res = .ok () → ∀ k, k / 512 ^ 3 ∈ app → k < 512 ^ 4 →
        pageIn s'.mem 3 r k = pageIn s.mem 3 image k) := by
  have hcopy : Copyable s app 3 r image := by
    refine ⟨h.sound, fun f hf => (h.base_used (hk.tables f hf)).1, fun f hf => ?_, hk.usable⟩
    have hout := (h.base_used (hk.tables f hf)).2
    have hout' : f ∉ {r} + s.below false app 3 r := fun hm => hout (Multiset.mem_of_le (tables_le_owned s r) hm)
    rwa [Multiset.mem_add, Multiset.mem_singleton, not_or] at hout'
  have hspec := copyPageMaps_spec hcopy (by decide) (fun j h1 h2 => mem_app.mpr ⟨h1, h2⟩) habsent hcall
  obtain ⟨Y, hg⟩ := hspec.grows
  exact ⟨h.grow hg, fun hres k hk => hspec.pages hres k (mem_app.mp hk).1⟩

/-- `LoadApp`. On failure, the page maps made so far stay in use. -/
theorem loadApp {res : Except Error ℕ} (h : Accounts base s runs) (hk : Cached base s image)
    (hcall : s.loadApp image = (res, s')) : Spares base runs s s' ∧
      ((Accounts base s' runs ∧ ∃ err, res = .error err) ∨ ∃ pml4, Accounts base s' (pml4 ::ₘ runs) ∧ s'.cr3 = pml4 ∧
        ∀ p, res = .ok p → p = pml4 ∧ ∀ k, k / 512 ^ 3 ∈ app → k < 512 ^ 4 →
          pageIn s'.mem 3 pml4 k = pageIn s.mem 3 image k) := by
  unfold Machine.loadApp at hcall
  rcases hset : s.setupPML4 with ⟨err | pml4, s₁⟩
  · rw [hset] at hcall
    cases hcall
    obtain rfl : s' = s := by
      unfold Machine.setupPML4 at hset
      rcases hnew : s.newPageMap with ⟨err' | frame, s₁⟩
      · rw [hnew] at hset
        cases hset
        exact eq_of_newPageMap_error hnew
      · rw [hnew] at hset
        cases hset
    exact ⟨fun _ _ => rfl, .inl ⟨h, err, rfl⟩⟩
  · obtain ⟨hacc, hr, hspares, habsent⟩ := h.setupPML4 hset
    obtain ⟨hk', hsame⟩ := hk.of_spares hspares
    rw [hset] at hcall
    dsimp only at hcall
    rcases hcopy : Machine.copyPageMaps 3 pml4 image 256 s₁ with ⟨err | _, s₂⟩
    all_goals
      obtain ⟨hserves, hpages⟩ := hacc.copyPageMaps hk' habsent hcopy
      rw [hcopy] at hcall
      cases hcall
      refine ⟨spares_trans hspares hserves.spares, .inr ⟨pml4, hserves.accounts, hserves.cr3.trans hr, fun p hp => ?_⟩⟩
    · cases hp
    · cases hp
      exact ⟨rfl, fun k hk hlt => (hpages rfl k hk hlt).trans (hsame k hk)⟩

/-- **The start of a run**: the kernel does not fault, and if all goes well the run has a page map with
the pages of the file. -/
theorem enterApp (argc : Except Error ℕ) (argv : ℕ → PageMapEntry) (h : Accounts base s runs)
    (hk : Cached base s image) (hb : BelowStack s image) : ∃ res s', s.enterApp image argc argv = some (res, s') ∧
      Spares base runs s s' ∧ ((Accounts base s' runs ∧ ∃ err, res = .error err) ∨
        ∃ pml4, Accounts base s' (pml4 ::ₘ runs) ∧ s'.cr3 = pml4 ∧ ∀ p, res = .ok p → p = pml4 ∧
          ∀ k, k / 512 ^ 3 ∈ app → k < Machine.stackFrameAddr.pageNumber 4 →
            pageIn s'.mem 3 pml4 k = pageIn s.mem 3 image k) := by
  unfold Machine.enterApp
  rcases hload : s.loadApp image with ⟨err | pml4, s₁⟩
  · obtain ⟨hspares, hacc⟩ := h.loadApp hk hload
    refine ⟨.error err, s₁, rfl, hspares, hacc.imp_right ?_⟩
    rintro ⟨pml4, hacc, hr, -⟩
    exact ⟨pml4, hacc, hr, fun p hp => by cases hp⟩
  obtain ⟨hspares, hacc⟩ := h.loadApp hk hload
  obtain ⟨r, hacc, hr, hok⟩ := hacc.resolve_left fun hc => by
    obtain ⟨-, err, herr⟩ := hc
    cases herr
  obtain ⟨rfl, hpages⟩ := hok pml4 rfl
  have hnone : ∀ k, Machine.stackFrameAddr.pageNumber 4 ≤ k → k < 512 ^ 4 → pageIn s₁.mem 3 pml4 k = none :=
    fun k hge hlt => (hpages k (aboveStack_mem_app hge hlt) hlt).trans (hb k hge hlt)
  have hargs : 256 ≤ Machine.argsFrameAddr.part 4 := by decide
  have hstack : 256 ≤ Machine.stackFrameAddr.part 4 := by decide
  have habs : ∀ k ∈ asked 3 Machine.argsFrameAddr 1, pageIn s₁.mem 3 pml4 k = none := by
    rintro k ⟨hge, -, hlt⟩
    rw [argsFrameAddr_pageNumber] at hge
    exact hnone k (by omega) hlt
  dsimp only
  rcases hsetup : s₁.setupPageMaps Machine.argsFrameAddr 1 true with ⟨err | num, s₂⟩
  · obtain ⟨-, hserves⟩ := hacc.setup hr hargs habs hsetup
    exact ⟨.error err, s₂, rfl, spares_trans hspares hserves.spares,
      .inr ⟨pml4, hserves.accounts, hserves.cr3.trans hr, fun p hp => by cases hp⟩⟩
  obtain ⟨hset, hserves₂⟩ := hacc.setup hr hargs habs hsetup
  obtain ⟨page, hwalk, -, htable, hstore⟩ := hacc.store_new hr hargs habs hsetup
  have hserves₃ := hstore argv
  have hacc₃ := hserves₃.accounts
  have hspares₃ := spares_trans hspares hserves₃.spares
  have hstored : s₂.storePage Machine.argsFrameAddr argv = some (s₂.setFrame page.frame argv) := by
    rw [Machine.storePage, hwalk]
    rfl
  simp only [hstored, Option.bind_eq_bind, Option.bind_some]
  have hr₃ : (s₂.setFrame page.frame argv).cr3 = pml4 := hserves₃.cr3.trans hr
  -- Only the page of the arguments is new so far.
  have hpages₃ : ∀ k, k / 512 ^ 3 ∈ app → k < Machine.argsFrameAddr.pageNumber 4 →
      pageIn (s₂.setFrame page.frame argv).mem 3 pml4 k = pageIn s₁.mem 3 pml4 k := by
    intro k hslot hlt
    obtain ⟨Y, Z, hg, -⟩ := hset.grows
    rw [pageIn_congr (fun x hx => Function.update_of_ne (fun he => htable (by rwa [← he])) _ _) hslot]
    exact hg.pages k hslot fun hk => absurd hlt (Nat.not_lt.mpr hk.1)
  have habs₃ : ∀ k ∈ asked 3 Machine.stackFrameAddr 16, pageIn (s₂.setFrame page.frame argv).mem 3 pml4 k = none := by
    rintro k ⟨hge, hle, hlt⟩
    exact (hpages₃ k (aboveStack_mem_app hge hlt) (argsFrameAddr_pageNumber ▸ hle)).trans (hnone k hge hlt)
  cases argc with
  | error err =>
    exact ⟨.error err, _, rfl, hspares₃, .inr ⟨pml4, hacc₃, hr₃, fun p hp => by cases hp⟩⟩
  | ok argc =>
    dsimp only
    rcases hsetup₃ : (s₂.setFrame page.frame argv).setupPageMaps Machine.stackFrameAddr 16 true with ⟨err | num, s₄⟩
    all_goals
      obtain ⟨hset₄, hserves₄⟩ := hacc₃.setup hr₃ hstack habs₃ hsetup₃
    · exact ⟨.error err, s₄, rfl, spares_trans hspares₃ hserves₄.spares,
        .inr ⟨pml4, hserves₄.accounts, hserves₄.cr3.trans hr₃, fun p hp => by cases hp⟩⟩
    · refine ⟨.ok pml4, s₄, rfl, spares_trans hspares₃ hserves₄.spares,
        .inr ⟨pml4, hserves₄.accounts, hserves₄.cr3.trans hr₃,
          fun p hp => ⟨(Except.ok.inj hp).symm, fun k hslot hlt => ?_⟩⟩⟩
      obtain ⟨Y, Z, hg, -⟩ := hset₄.grows
      rw [hg.pages k hslot fun hk => absurd hlt (Nat.not_lt.mpr hk.1),
        hpages₃ k hslot (by rw [argsFrameAddr_pageNumber]; omega)]
      exact hpages k hslot (by have hlast := Machine.stackFrameAddr.pageNumber_lt (n := 4); omega)

/-! ### The end of a run -/

/-- **`CleanPageMaps` and `FreePML4`** take what belongs to the run off the accounts. -/
theorem leaveApp (h : Accounts base s (r ::ₘ rest)) (hr : s.cr3 = r) (pml4Table : ℕ) :
    Accounts base (s.leaveApp pml4Table) rest ∧ Spares base rest s (s.leaveApp pml4Table) := by
  have hstart : app = slotsFrom ((LinearAddress4Level.ofValue 0xffff800000000000).part (3 + 1)) := rfl
  have hlow : ∀ level, 0 < level → level ≤ 3 → (LinearAddress4Level.ofValue 0xffff800000000000).part level = 0 := by
    intro level h1 h2
    match level, h1, h2 with
    | 1, _, _ => rfl
    | 2, _, _ => rfl
    | 3, _, _ => rfl
  have hsound : Sound true s (slotsFrom ((LinearAddress4Level.ofValue 0xffff800000000000).part (3 + 1))) 3 r :=
    hstart ▸ h.sound
  have hclean := cleanPageMap_spec hsound hlow h.usable_head
  rw [← hstart] at hclean
  have hcleaned : Machine.cleanPageMap (.ofValue 0xffff800000000000) (3 + 1) r s =
      s.cleanPageMaps (.ofValue 0xffff800000000000) := by rw [Machine.cleanPageMaps, hr]
  rw [hcleaned] at hclean
  have hspares : Spares base rest s (s.leaveApp pml4Table) := by
    intro f hf
    have hout := (hf.elim h.base_used h.other).2
    have hout' : f ∉ {r} + s.below false app 3 r := fun hm => hout (Multiset.mem_of_le (tables_le_owned s r) hm)
    rw [Multiset.mem_add, Multiset.mem_singleton, not_or] at hout'
    exact hclean.frame f hout'.1 hout'.2
  have hbits : ∀ f, (s.leaveApp pml4Table).memoryManager.getBit f = true ↔
      s.memoryManager.getBit f = true ∧ f ∉ s.owned r := by
    intro f
    have hmanager : (s.leaveApp pml4Table).memoryManager =
        (s.cleanPageMaps (.ofValue 0xffff800000000000)).memoryManager.free r 1 := by
      rw [← hr]
      rfl
    have hone : Frees { s.cleanPageMaps (.ofValue 0xffff800000000000) with cr3 := pml4Table } (s.leaveApp pml4Table)
        {r} :=
      frees_one hmanager rfl
    rw [hone.getBit, hclean.frees.getBit, Machine.owned, Multiset.mem_add, not_or]
    exact and_assoc.trans (and_congr_right fun _ => and_comm)
  have hrest : rest.bind (s.leaveApp pml4Table).owned = rest.bind s.owned ∧
      ((∀ r ∈ rest, s.AppUsable r) → ∀ r ∈ rest, (s.leaveApp pml4Table).AppUsable r) :=
    rest_congr fun f hf => hspares f (.inr hf)
  have hn := h.nodup
  rw [Multiset.cons_bind, Multiset.nodup_add] at hn
  refine ⟨⟨hrest.2 fun r hr => h.usable r (Multiset.mem_cons_of_mem hr), ?_, fun f => ?_, fun f hf => ?_⟩, hspares⟩
  · rw [hrest.1]
    exact hn.2.1
  · rw [hbits, hrest.1, h.bits, Multiset.cons_bind, Multiset.mem_add]
    have hb : base f → f ∉ s.owned r := fun hb => (h.base_used hb).2
    have ho : f ∈ rest.bind s.owned → f ∉ s.owned r := fun ho => (h.other ho).2
    tauto
  · rw [hrest.1] at hf
    refine h.apart f ?_
    rw [Multiset.cons_bind, Multiset.mem_add]
    exact .inr hf

end Accounts

/-! ### The whole run -/

/-- A step of the application keeps the accounts. -/
theorem AppStep.serves (h : AppStep s s') (hacc : Accounts base s (r ::ₘ rest)) (hr : s.cr3 = r) :
    Serves base rest r s s' := by
  cases h with
  | store words hv hp _ hw => exact hacc.store_page hr hv.part hp hw words
  | fault t hv hraise hcall =>
    obtain ⟨res, s₁, hcall₁, hserves, -⟩ := hacc.fault (t := t) hr hv.part hraise
    rw [hcall] at hcall₁
    cases hcall₁
    exact hserves

theorem appRun_serves (h : Relation.ReflTransGen AppStep s s') (hacc : Accounts base s (r ::ₘ rest)) (hr : s.cr3 = r) :
    Serves base rest r s s' := by
  induction h with
  | refl => exact Accounts.serves_refl hacc
  | tail _ hstep ih => exact Accounts.serves_trans ih (hstep.serves ih.accounts (ih.cr3.trans hr))

/-- Before the first run, all frames in use are `base`. -/
theorem accounts_start (s : Machine) : Accounts (fun f => s.memoryManager.getBit f = true) s 0 where
  usable := fun r hr => absurd hr (Multiset.notMem_zero r)
  nodup := Multiset.nodup_zero
  bits := fun f => by simp
  apart := fun f hf => absurd hf (Multiset.notMem_zero f)

/-- **Frames are conserved over a run.** After it exactly the frames are in use that were before, those
of the cached page map included, and these have the same contents; the page fault handler does not fault
itself on the way. -/
theorem frames_conserved {argc : Except Error ℕ} {argv : ℕ → PageMapEntry}
    (hcached : Cached (fun f => s.memoryManager.getBit f = true) s image) (hbelow : BelowStack s image)
    (henter : s.enterApp image argc argv = some (.ok pml4, s₁)) (hrun : Relation.ReflTransGen AppStep s₁ s₂) :
    (∀ pml4Table f, (s₂.leaveApp pml4Table).memoryManager.getBit f = s.memoryManager.getBit f) ∧
      (∀ pml4Table f, s.memoryManager.getBit f = true → (s₂.leaveApp pml4Table).mem f = s.mem f) ∧
      ∀ t v errorCode, AppAddress v → s₂.Raises (.ofValue v) errorCode → s₂.handlePageFault t errorCode v ≠ none := by
  obtain ⟨res, s', hcall, hspares, hacc⟩ := (accounts_start s).enterApp argc argv hcached hbelow
  rw [henter] at hcall
  cases hcall
  obtain ⟨r, hacc, hr, -⟩ := hacc.resolve_left fun hc => by
    obtain ⟨-, err, herr⟩ := hc
    cases herr
  have hserves := appRun_serves hrun hacc hr
  have hacc₂ := hserves.accounts
  have hr₂ := hserves.cr3.trans hr
  refine ⟨fun pml4Table f => ?_, fun pml4Table f hf => ?_, fun t v errorCode hv hraise => ?_⟩
  · obtain ⟨hleft, -⟩ := hacc₂.leaveApp hr₂ pml4Table
    have hbits := hleft.bits f
    rw [Multiset.zero_bind] at hbits
    rw [Bool.eq_iff_iff, hbits]
    simp
  · obtain ⟨-, hspares₃⟩ := hacc₂.leaveApp hr₂ pml4Table
    exact Accounts.spares_trans (Accounts.spares_trans hspares hserves.spares) hspares₃ f (.inl hf)
  · obtain ⟨res, s', hcall, -⟩ := hacc₂.fault (t := t) hr₂ hv.part hraise
    rw [hcall]
    exact fun hnone => by cases hnone

/-! ### A cached file of one page -/

/-- An entry that points to a frame. -/
def entryTo (frame : ℕ) (writable : Bool) : PageMapEntry :=
  ((PageMapEntry.zero.setPointer frame).setPresent true |>.setUser true).setWritable writable

theorem smallRange : 64 ≤ 2 ^ 40 := by decide

/-- The page map of the file is frame 2, the page maps below it are the frames after that, and its page
is frame 6. -/
def oneCached : Machine where
  mem f i :=
    if f = 2 ∧ i = 256 then entryTo 3 true
    else if f = 3 ∧ i = 0 then entryTo 4 true
    else if f = 4 ∧ i = 0 then entryTo 5 true
    else if f = 5 ∧ i = 0 then entryTo 6 false
    else .zero
  memoryManager := { getBit := fun f => f < 7, rangeBegin := 1, rangeEnd := 64, rangeEnd_le := smallRange }
  cr3 := 1

theorem every_zero {own : Bool} {mem : ℕ → ℕ → PageMapEntry} {n : ℕ} :
    Every (format own) slots mem Usable n .zero :=
  every_of_absent rfl ⟨fun hp => (Bool.false_ne_true hp).elim, fun _ => rfl⟩

/-- A page map all whose entries but one are absent. -/
theorem every_entryTo {own : Bool} {mem : ℕ → ℕ → PageMapEntry} {n frame : ℕ} (hlt : frame < 2 ^ 40)
    (hzero : ∀ i, i ≠ 0 → mem frame i = .zero) (h : Every (format own) slots mem Usable n (mem frame 0)) :
    Every (format own) slots mem Usable (n + 1) (entryTo frame true) := by
  refine ⟨⟨fun _ => ⟨rfl, fun _ => rfl⟩, fun _ => rfl⟩, fun c hc i _ => ?_⟩
  have hptr : (entryTo frame true).pointer = frame := Nat.mod_eq_of_lt hlt
  rw [child_present rfl, hptr, Option.some.injEq] at hc
  subst hc
  by_cases hi : i = 0
  · rwa [hi]
  · rw [hzero i hi]
    exact every_zero

theorem oneCached_pointer {c i f : ℕ} (hp : (format false).child (oneCached.mem c i) = some f) : 2 < f ∧ f < 7 := by
  unfold oneCached at hp
  dsimp only at hp
  split_ifs at hp
  all_goals
    cases hp
    try decide

theorem oneCached_cached : Cached (fun f => oneCached.memoryManager.getBit f = true) oneCached 2 := by
  refine ⟨fun i hi => ?_, fun f hf => ?_, fun k f _ hf => ?_⟩
  · by_cases h256 : i = 256
    · subst h256
      refine every_entryTo (by decide) (fun i hi => by simp [oneCached, hi]) ?_
      refine every_entryTo (by decide) (fun i hi => by simp [oneCached, hi]) ?_
      refine every_entryTo (by decide) (fun i hi => by simp [oneCached, hi]) ?_
      exact ⟨fun _ => ⟨rfl, fun h0 => absurd h0 (Nat.lt_irrefl 0)⟩, fun h0 => absurd h0 (Nat.lt_irrefl 0)⟩
    · have hzero : oneCached.mem 2 i = .zero := by simp [oneCached, h256]
      rw [hzero]
      exact every_zero
  · rw [Multiset.mem_add, Multiset.mem_singleton] at hf
    rcases hf with rfl | hf
    · rfl
    · obtain ⟨i, -, hi⟩ := mem_below.mp hf
      exact decide_eq_true ((child_of_mem_held hi).elim oneCached_pointer fun ⟨_, _, hx⟩ => oneCached_pointer hx).2
  · exact decide_eq_true ((child_of_pageBelow hf).elim oneCached_pointer fun ⟨_, _, hx⟩ => oneCached_pointer hx).2

theorem oneCached_belowStack : BelowStack oneCached 2 := by
  intro k hk hlt
  have hstack : Machine.stackFrameAddr.pageNumber 4 = 68719476719 := by decide
  rw [hstack] at hk
  have hslot : k / 512 ^ 3 ≠ 256 := by omega
  rw [pageIn]
  generalize k / 512 ^ 3 = i at hslot
  have hzero : oneCached.mem 2 i = .zero := by simp [oneCached, hslot]
  rw [hzero]
  rfl

/-- A task that maps no files. -/
def noFileMaps : TaskMemory := ⟨0, 0, [], fun _ _ => [], fun _ _ => Nat.zero_le _⟩

/-- What is in use when the application starts, the page that it shares, and whether the kernel can handle
the page fault for it. -/
def oneEntered : Option (ℕ × ℕ × Option Page × Bool) :=
  match oneCached.enterApp 2 (.ok 0) fun _ => .zero with
  | some (.ok pml4, s) => some (pml4, s.cr3, s.translate (.ofValue 0xffff800000000000),
      (s.handlePageFault noFileMaps 7 0xffff800000000000).isSome)
  | _ => none

theorem appAddress_first : AppAddress 0xffff800000000000 := ⟨Nat.le_refl _, by decide⟩

/-- The application starts, and stores to its page, which it shares with the page map in `app_loads`. -/
theorem oneEntered_run : ∃ s₁ s₂, oneCached.enterApp 2 (.ok 0) (fun _ => .zero) = some (.ok 7, s₁) ∧ s₁.cr3 = 7 ∧
    s₁.translate (.ofValue 0xffff800000000000) = some ⟨6, false, true⟩ ∧ AppStep s₁ s₂ := by
  have h : oneEntered = some (7, 7, some ⟨6, false, true⟩, true) := by decide +kernel
  unfold oneEntered at h
  split at h
  next pml4 s₁ henter =>
    simp only [Option.some.injEq, Prod.mk.injEq] at h
    obtain ⟨rfl, hcr3, hpage, hhandled⟩ := h
    obtain ⟨⟨res, s₂⟩, hcall⟩ := Option.isSome_iff_exists.mp hhandled
    refine ⟨s₁, s₂, henter, hcr3, hpage, .fault noFileMaps appAddress_first ?_ hcall⟩
    unfold Machine.Raises
    rw [hpage]
    exact ⟨rfl, rfl, .inr ⟨rfl, rfl⟩⟩
  next => cases h

theorem frames_conserved_one : ∃ s₁ s₂, oneCached.enterApp 2 (.ok 0) (fun _ => .zero) = some (.ok 7, s₁) ∧
    AppStep s₁ s₂ ∧ ∀ f, (s₂.leaveApp 1).memoryManager.getBit f = oneCached.memoryManager.getBit f := by
  obtain ⟨s₁, s₂, henter, -, -, hstep⟩ := oneEntered_run
  exact ⟨s₁, s₂, henter, hstep, (frames_conserved oneCached_cached oneCached_belowStack henter (.single hstep)).1 1⟩

end DuvuvurKernel
