import DuvuvurKernel.Fat.SharedFile
import DuvuvurKernel.Paging.Elf
import DuvuvurKernel.Paging.ExecuteFile
import DuvuvurKernel.Terminal.ArgVector

/-!
# Loading an application, and failing to

`LoadApp`, with the files that are in `app_loads` and those that are not, and `Terminal::ExecuteFile` up to
`CallApp`.

## The model

What the two change outside of memory is the page map of the task and `app_loads` (`Kernel`). A call fails in one of
many ways: no frame is free for one of the page maps or pages, the file is no ELF file, it does not load, or the
arguments do not fit.

**Result** (`leavesNoTrace_iff`): a call that fails has not changed CR3, the page map of the task and the frames in
use just when there was no free frame to begin with. `SetupPML4` comes first, and nothing takes back what it does.
-/

namespace DuvuvurKernel

open Fat

/-- `AppLoadInfo`. -/
structure AppLoadInfo where
  vaddrEnd : ℕ
  entry : ℕ
  pml4 : ℕ
  deriving DecidableEq

/-- What `ExecuteFile` changes. -/
structure Kernel where
  machine : Machine
  /-- `Context().cr3` of the task. -/
  contextCr3 : ℕ
  /-- `app_loads`. -/
  appLoads : EntryPtr → Option AppLoadInfo

namespace Kernel

/-- `SetupPML4`. -/
def setupPML4 (k : Kernel) : Except Error ℕ × Kernel :=
  match k.machine.setupPML4 with
  | (.error err, s) => (.error err, { k with machine := s })
  | (.ok pml4, s) => (.ok pml4, { k with machine := s, contextCr3 := pml4 })

/-- `file_buf` after `LoadFile`. The buffer is cleared when it is made. -/
def loadFile (g : BPB) (v : Volume) (fileEntry : EntryPtr) (outside : ℕ → Option UInt8) : Option FileBuf := do
  let size := v.fileSize fileEntry
  let (bytes, _) ← ({ entry := fileEntry } : FileDescriptor).read g v size
  return { bytes := bytes ++ List.replicate (size - bytes.length) 0, outside := outside }

/-- `LoadApp`, of a file that is not in `app_loads`, after the first `SetupPML4`. -/
def loadNew (k : Kernel) (fileEntry : EntryPtr) (buf : FileBuf) (tempPml4 : ℕ) :
    Option (Except Error AppLoadInfo × Kernel) := do
  if (← buf.read 0 4) ≠ [0x7f, 0x45, 0x4c, 0x46] then some (.error .invalidFile, k)
  else
    match ← k.machine.loadELF buf with
    | (.error err, s) => some (.error err, { k with machine := s })
    | (.ok lastAddr, s) =>
      let appLoad : AppLoadInfo := { vaddrEnd := lastAddr, entry := ← buf.eEntry, pml4 := tempPml4 }
      let k := { k with machine := s, appLoads := Function.update k.appLoads fileEntry (some appLoad) }
      match k.setupPML4 with
      | (.error err, k) => some (.error err, k)
      | (.ok pml4, k) =>
        match Machine.copyPageMaps 3 pml4 tempPml4 256 k.machine with
        | (.error err, s) => some (.error err, { k with machine := s })
        | (.ok (), s) => some (.ok { appLoad with pml4 := pml4 }, { k with machine := s })

/-- `LoadApp`. -/
def loadApp (k : Kernel) (g : BPB) (v : Volume) (fileEntry : EntryPtr) (outside : ℕ → Option UInt8) :
    Option (Except Error AppLoadInfo × Kernel) :=
  match k.setupPML4 with
  | (.error err, k) => some (.error err, k)
  | (.ok tempPml4, k) =>
    match k.appLoads fileEntry with
    | some appLoad =>
      match Machine.copyPageMaps 3 tempPml4 appLoad.pml4 256 k.machine with
      | (.error err, s) => some (.error err, { k with machine := s })
      | (.ok (), s) => some (.ok { appLoad with pml4 := tempPml4 }, { k with machine := s })
    | none => do
      let buf ← loadFile g v fileEntry outside
      k.loadNew fileEntry buf tempPml4

/-- The bytes of `argv`, whose elements point into the page of the arguments. -/
def argvBytes (args : ArgVector) : List UInt8 :=
  args.argv.flatMap fun index => (List.range 8).map fun i =>
    UInt8.ofNat ((Machine.argsFrameAddr.value + 256 + index) / 256 ^ i)

/-- `ExecuteFile`, up to the call of `CallApp` with a file and `argc`. -/
def executeFile (k : Kernel) (g : BPB) (v : Volume) (fileEntry : EntryPtr) (outside : ℕ → Option UInt8)
    (command : CString) (firstArg : Option CString) : Option (Except Error (AppLoadInfo × ℕ) × Kernel) := do
  match ← k.loadApp g v fileEntry outside with
  | (.error err, k) => some (.error err, k)
  | (.ok appLoad, k) =>
    match k.machine.setupPageMaps Machine.argsFrameAddr 1 true with
    | (.error err, s) => some (.error err, { k with machine := s })
    | (.ok _, s) =>
      let (res, args) := makeArgVector command firstArg 32 (4096 - 8 * 32)
      let s ← s.memcpy Machine.argsFrameAddr.value (argvBytes args)
      let s ← s.memcpy (Machine.argsFrameAddr.value + 8 * 32) args.argbuf
      match res with
      | .error err => some (.error err, { k with machine := s })
      | .ok () =>
        match s.setupPageMaps Machine.stackFrameAddr 16 true with
        | (.error err, s) => some (.error err, { k with machine := s })
        | (.ok _, s) => some (.ok (appLoad, args.argv.length), { k with machine := s })

end Kernel

/-! ### What is asked of a call that fails -/

/-- The frames of a page map and of its pages. -/
def Machine.FrameOf (s : Machine) (pml4 f : ℕ) : Prop :=
  f ∈ {pml4} + s.below false app 3 pml4 ∨ ∃ page, pageIn s.mem 3 pml4 page = some f

/-- Nothing is left of a call but a file in `app_loads`, with its frames. -/
structure Kernel.LeavesNoTrace (k k' : Kernel) (fileEntry : EntryPtr) : Prop where
  cr3 : k'.machine.cr3 = k.machine.cr3
  contextCr3 : k'.contextCr3 = k.contextCr3
  frames : ∀ f, k'.machine.memoryManager.getBit f = k.machine.memoryManager.getBit f ∨
    ∃ appLoad, k.appLoads fileEntry = none ∧ k'.appLoads fileEntry = some appLoad ∧ k'.machine.FrameOf appLoad.pml4 f

/-! ### Frames are taken only -/

variable {s s' s₁ : Machine} {n pageMap i dest src fuel level num : ℕ} {addr : LinearAddress4Level} {writable : Bool}

/-- Some free frames may have been allocated. -/
def Machine.OnlyTakes (s s' : Machine) : Prop := ∃ X, Takes s s' X

namespace Machine.OnlyTakes

theorem refl (s : Machine) : s.OnlyTakes s := ⟨0, .refl s⟩

theorem trans (h : s.OnlyTakes s₁) (h' : s₁.OnlyTakes s') : s.OnlyTakes s' := by
  obtain ⟨X, hX⟩ := h
  obtain ⟨Y, hY⟩ := h'
  exact ⟨X + Y, hX.trans hY⟩

theorem setEntry (s : Machine) (pageMap i : ℕ) (e : PageMapEntry) : s.OnlyTakes (s.setEntry pageMap i e) :=
  ⟨0, .of_eq rfl rfl⟩

theorem newPageMap (s : Machine) : s.OnlyTakes s.newPageMap.2 := by
  rcases newPageMap_cases s with ⟨frame, s₁, hnew, htakes, -⟩ | ⟨hnew, -⟩
  · rw [hnew]
    exact ⟨_, htakes⟩
  · rw [hnew]
    exact refl s

theorem setNewPageMapIfNotPresent (s : Machine) (pageMap i : ℕ) :
    s.OnlyTakes (s.setNewPageMapIfNotPresent pageMap i).2 := by
  have hnew := newPageMap s
  unfold Machine.setNewPageMapIfNotPresent
  dsimp only
  split
  · exact refl s
  · rcases hcall : s.newPageMap with ⟨err | childMap, s₁⟩
    · rw [hcall] at hnew
      exact hnew
    · rw [hcall] at hnew
      exact hnew.trans (setEntry _ _ _ _)

theorem setupEntries {setupChild : ℕ → LinearAddress4Level → ℕ → Machine → Except Error ℕ × Machine}
    (hchild : ∀ childMap addr num (s : Machine), s.OnlyTakes (setupChild childMap addr num s).2) :
    s.OnlyTakes (Machine.setupEntries setupChild pageMap level writable fuel addr num s).2 := by
  induction fuel generalizing addr num s with
  | zero => exact refl s
  | succ fuel ih =>
    unfold Machine.setupEntries
    split
    · exact refl s
    · have hnew := setNewPageMapIfNotPresent s pageMap (addr.part level)
      dsimp only
      rcases hcall : s.setNewPageMapIfNotPresent pageMap (addr.part level) with ⟨err | childMap, s₁⟩
      · rw [hcall] at hnew
        exact hnew
      · rw [hcall] at hnew
        dsimp only
        generalize ((s₁.mem pageMap (addr.part level)).setUser true).setWritable
          (if level = 1 then writable else true) = e
        have hflags := hnew.trans (setEntry s₁ pageMap (addr.part level) e)
        generalize s₁.setEntry pageMap (addr.part level) e = s₂ at hflags ⊢
        have hbelow := hflags.trans (hchild childMap addr num s₂)
        rcases hcall₂ : setupChild childMap addr num s₂ with ⟨err | num', s₃⟩
        · rw [hcall₂] at hbelow
          exact hbelow
        · rw [hcall₂] at hbelow
          dsimp only
          split
          · exact hbelow
          · exact hbelow.trans ih

theorem setupPageMap (writable : Bool) (n : ℕ) : ∀ pageMap addr num s,
    Machine.OnlyTakes s (Machine.setupPageMap writable n pageMap addr num s).2 := by
  induction n with
  | zero => exact fun _ _ _ s => refl s
  | succ n ih => exact fun _ _ _ _ => setupEntries ih

theorem setupPageMaps (s : Machine) (addr : LinearAddress4Level) (num : ℕ) (writable : Bool) :
    s.OnlyTakes (s.setupPageMaps addr num writable).2 := setupPageMap writable 4 _ _ _ _

theorem copyPages (s : Machine) (dest src fuel i : ℕ) : s.OnlyTakes (Machine.copyPages dest src fuel i s) := by
  induction fuel generalizing i s with
  | zero => exact refl s
  | succ fuel ih =>
    unfold Machine.copyPages
    split
    · exact ih s (i + 1)
    · exact (setEntry _ _ _ _).trans (ih _ (i + 1))

theorem copyEntries {copyChild : ℕ → ℕ → Machine → Except Error Unit × Machine}
    (hchild : ∀ dest src (s : Machine), s.OnlyTakes (copyChild dest src s).2) :
    s.OnlyTakes (Machine.copyEntries copyChild dest src fuel i s).2 := by
  induction fuel generalizing i s with
  | zero => exact refl s
  | succ fuel ih =>
    unfold Machine.copyEntries
    split
    · exact ih
    · have hnew := newPageMap s
      rcases hcall : s.newPageMap with ⟨err | table, s₁⟩
      · rw [hcall] at hnew
        exact hnew
      · rw [hcall] at hnew
        dsimp only
        generalize (s₁.mem src i).setPointer table = e
        have hentry := hnew.trans (setEntry s₁ dest i e)
        generalize s₁.setEntry dest i e = s₂ at hentry ⊢
        have hbelow := hentry.trans (hchild table (s₂.mem src i).pointer s₂)
        rcases hcall₂ : copyChild table (s₂.mem src i).pointer s₂ with ⟨err | _, s₃⟩
        · rw [hcall₂] at hbelow
          exact hbelow
        · rw [hcall₂] at hbelow
          exact hbelow.trans ih

theorem copyPageMaps (n : ℕ) : ∀ dest src start s, Machine.OnlyTakes s (Machine.copyPageMaps n dest src start s).2 := by
  induction n with
  | zero => exact fun dest src start s => copyPages s dest src _ start
  | succ n ih => exact fun _ _ _ _ => copyEntries fun dest src s => ih dest src 0 s

theorem storeByte {dst : ℕ} {b : UInt8} (h : s.storeByte dst b = some s') : s.OnlyTakes s' := by
  unfold Machine.storeByte at h
  split at h
  · obtain ⟨page, -, rfl⟩ := Option.map_eq_some_iff.mp h
    exact ⟨0, .of_eq rfl rfl⟩
  · cases h

theorem memcpy {dst : ℕ} {bytes : List UInt8} (h : s.memcpy dst bytes = some s') : s.OnlyTakes s' := by
  induction bytes generalizing dst s with
  | nil =>
    cases h
    exact refl _
  | cons b bytes ih =>
    obtain ⟨s₁, hb, h⟩ := Option.bind_eq_some_iff.mp (show s.storeByte dst b >>= _ = some s' from h)
    exact (storeByte hb).trans (ih h)

theorem memset {dst : ℕ} {c : UInt8} (h : s.memset dst c n = some s') : s.OnlyTakes s' := by
  induction n generalizing dst s with
  | zero =>
    cases h
    exact refl _
  | succ n ih =>
    obtain ⟨s₁, hb, h⟩ := Option.bind_eq_some_iff.mp (show s.storeByte dst c >>= _ = some s' from h)
    exact (storeByte hb).trans (ih h)

variable {buf : FileBuf}

theorem copyLoadSegment {phdr : Elf64Phdr} {res : Except Error Unit} (h : s.copyLoadSegment buf phdr = some (res, s')) :
    s.OnlyTakes s' := by
  unfold Machine.copyLoadSegment at h
  dsimp only at h
  generalize (phdr.pVaddr % 4096 + phdr.pMemsz + 4095) % 2 ^ 64 / 4096 = num at h
  have hsetup := setupPageMaps s (.ofValue phdr.pVaddr) num false
  rcases hcall : s.setupPageMaps (.ofValue phdr.pVaddr) num false with ⟨err | _, s₁⟩
  · rw [hcall] at h hsetup
    cases h
    exact hsetup
  · rw [hcall] at h hsetup
    obtain ⟨src, -, h⟩ := Option.bind_eq_some_iff.mp h
    obtain ⟨s₂, hcpy, h⟩ := Option.bind_eq_some_iff.mp h
    obtain ⟨s₃, hset, h⟩ := Option.bind_eq_some_iff.mp h
    cases h
    exact (hsetup.trans (memcpy hcpy)).trans (memset hset)

theorem copyLoadSegmentsFrom {phoff k lastAddr : ℕ} {res : Except Error ℕ}
    (h : Machine.copyLoadSegmentsFrom buf phoff k i lastAddr s = some (res, s')) : s.OnlyTakes s' := by
  induction k generalizing i lastAddr s with
  | zero =>
    cases h
    exact refl _
  | succ k ih =>
    obtain ⟨type, -, h⟩ := Option.bind_eq_some_iff.mp h
    split at h
    · exact ih h
    · obtain ⟨phdr, -, h⟩ := Option.bind_eq_some_iff.mp h
      obtain ⟨⟨res₁ | _, s₁⟩, hseg, h⟩ := Option.bind_eq_some_iff.mp h
      · cases h
        exact copyLoadSegment hseg
      · exact (copyLoadSegment hseg).trans (ih h)

theorem loadELF {res : Except Error ℕ} (h : s.loadELF buf = some (res, s')) : s.OnlyTakes s' := by
  obtain ⟨type, -, h⟩ := Option.bind_eq_some_iff.mp h
  split at h
  · cases h
    exact refl _
  · obtain ⟨first, -, h⟩ := Option.bind_eq_some_iff.mp h
    split at h
    · cases h
      exact refl s
    · obtain ⟨phoff, -, h⟩ := Option.bind_eq_some_iff.mp h
      obtain ⟨phnum, -, h⟩ := Option.bind_eq_some_iff.mp h
      exact copyLoadSegmentsFrom h

end Machine.OnlyTakes

/-! ### After `SetupPML4` -/

variable {k k' k₁ : Kernel} {g : BPB} {v : Volume} {fileEntry : EntryPtr} {outside : ℕ → Option UInt8}

/-- CR3 has changed to a page map whose frame was free. -/
structure Kernel.Moved (k k' : Kernel) : Prop where
  cr3 : k.machine.memoryManager.IsFree k'.machine.cr3
  isFree : ∀ f, k'.machine.memoryManager.IsFree f → k.machine.memoryManager.IsFree f

namespace Kernel

theorem Moved.takes (h : k.Moved k') (ht : k'.machine.OnlyTakes s) (contextCr3 : ℕ)
    (appLoads : EntryPtr → Option AppLoadInfo) :
    k.Moved ⟨s, contextCr3, appLoads⟩ := by
  obtain ⟨X, hX⟩ := ht
  refine ⟨?_, fun f hf => h.isFree f (hX.isFree_iff.mp hf).1⟩
  show k.machine.memoryManager.IsFree s.cr3
  rw [hX.cr3]
  exact h.cr3

/-- `SetupPML4` changes CR3, unless no frame is free. -/
theorem setupPML4_cases (k : Kernel) :
    (∃ pml4 k', k.setupPML4 = (.ok pml4, k') ∧ k.Moved k' ∧ k'.appLoads = k.appLoads) ∨
      (∃ err, k.setupPML4 = (.error err, k)) ∧ ∀ f, ¬ k.machine.memoryManager.IsFree f := by
  rw [setupPML4, Machine.setupPML4]
  rcases newPageMap_cases k.machine with ⟨frame, s₁, hnew, htakes, -⟩ | ⟨hnew, hfull⟩
  · rw [hnew]
    refine .inl ⟨_, _, rfl, ⟨htakes.isFree frame (Multiset.mem_singleton_self _), fun f hf => ?_⟩, rfl⟩
    exact (htakes.isFree_iff.mp hf).1
  · rw [hnew]
    exact .inr ⟨⟨_, rfl⟩, hfull⟩

theorem Moved.setupPML4 (h : k.Moved k₁) : k.Moved k₁.setupPML4.2 := by
  rcases setupPML4_cases k₁ with ⟨pml4, k₂, hset, hmoved, -⟩ | ⟨⟨err, hset⟩, -⟩
  · rw [hset]
    exact ⟨h.isFree _ hmoved.cr3, fun f hf => h.isFree f (hmoved.isFree f hf)⟩
  · rw [hset]
    exact h

theorem Moved.loadNew {buf : FileBuf} {tempPml4 : ℕ} {res : Except Error AppLoadInfo} (h : k.Moved k₁)
    (hcall : k₁.loadNew fileEntry buf tempPml4 = some (res, k')) : k.Moved k' := by
  obtain ⟨magic, -, hcall⟩ := Option.bind_eq_some_iff.mp hcall
  split at hcall
  · cases hcall
    exact h
  · obtain ⟨⟨err | lastAddr, s₁⟩, hload, hcall⟩ := Option.bind_eq_some_iff.mp hcall
    · cases hcall
      exact h.takes (.loadELF hload) _ _
    · obtain ⟨entry, -, hcall⟩ := Option.bind_eq_some_iff.mp hcall
      have hloaded := h.takes (.loadELF hload) k₁.contextCr3
        (Function.update k₁.appLoads fileEntry (some { vaddrEnd := lastAddr, entry := entry, pml4 := tempPml4 }))
      have hset := hloaded.setupPML4
      dsimp only at hcall
      rcases hset₂ : Kernel.setupPML4 ⟨s₁, k₁.contextCr3,
          Function.update k₁.appLoads fileEntry (some { vaddrEnd := lastAddr, entry := entry, pml4 := tempPml4 })⟩ with
        ⟨err | pml4, k₂⟩
      · rw [hset₂] at hcall hset
        cases hcall
        exact hset
      · rw [hset₂] at hcall hset
        have hcopied := Machine.OnlyTakes.copyPageMaps 3 pml4 tempPml4 256 k₂.machine
        dsimp only at hcall
        rcases hcopy : Machine.copyPageMaps 3 pml4 tempPml4 256 k₂.machine with ⟨err | _, s₂⟩
        all_goals
          rw [hcopy] at hcall hcopied
          cases hcall
          exact hset.takes hcopied _ _

/-- **`LoadApp`** changes CR3, unless no frame is free. -/
theorem loadApp_cases {res : Except Error AppLoadInfo} (hcall : k.loadApp g v fileEntry outside = some (res, k')) :
    k.Moved k' ∨ (k' = k ∧ ∃ err, res = .error err) ∧ ∀ f, ¬ k.machine.memoryManager.IsFree f := by
  unfold Kernel.loadApp at hcall
  rcases setupPML4_cases k with ⟨tempPml4, k₁, hset, hmoved, -⟩ | ⟨⟨err, hset⟩, hfull⟩
  · rw [hset] at hcall
    dsimp only at hcall
    split at hcall
    next appLoad _ =>
      have hcopied := Machine.OnlyTakes.copyPageMaps 3 tempPml4 appLoad.pml4 256 k₁.machine
      rcases hcopy : Machine.copyPageMaps 3 tempPml4 appLoad.pml4 256 k₁.machine with ⟨err | _, s₂⟩
      all_goals
        rw [hcopy] at hcall hcopied
        cases hcall
        exact .inl (hmoved.takes hcopied _ _)
    next =>
      obtain ⟨buf, -, hcall⟩ := Option.bind_eq_some_iff.mp hcall
      exact .inl (hmoved.loadNew hcall)
  · rw [hset] at hcall
    cases hcall
    exact .inr ⟨⟨rfl, err, rfl⟩, hfull⟩

/-- **`ExecuteFile`**, up to `CallApp`, changes CR3, unless no frame is free. -/
theorem executeFile_cases {command : CString} {firstArg : Option CString} {res : Except Error (AppLoadInfo × ℕ)}
    (hcall : k.executeFile g v fileEntry outside command firstArg = some (res, k')) :
    k.Moved k' ∨ k' = k ∧ ∀ f, ¬ k.machine.memoryManager.IsFree f := by
  obtain ⟨⟨err | appLoad, k₁⟩, hload, hcall⟩ := Option.bind_eq_some_iff.mp hcall
  · cases hcall
    exact (loadApp_cases hload).imp_right fun h => ⟨h.1.1, h.2⟩
  · have hmoved : k.Moved k₁ := (loadApp_cases hload).resolve_right fun ⟨⟨_, err, herr⟩, _⟩ => by cases herr
    have hargs := Machine.OnlyTakes.setupPageMaps k₁.machine Machine.argsFrameAddr 1 true
    left
    dsimp only at hcall
    rcases hsetup : k₁.machine.setupPageMaps Machine.argsFrameAddr 1 true with ⟨err | _, s₁⟩
    · rw [hsetup] at hcall hargs
      cases hcall
      exact hmoved.takes hargs _ _
    · rw [hsetup] at hcall hargs
      dsimp only at hcall
      rcases hvector : makeArgVector command firstArg 32 (4096 - 8 * 32) with ⟨vectorRes, args⟩
      rw [hvector] at hcall
      obtain ⟨s₂, hargv, hcall⟩ := Option.bind_eq_some_iff.mp hcall
      obtain ⟨s₃, hargbuf, hcall⟩ := Option.bind_eq_some_iff.mp hcall
      have hstored := (hargs.trans (.memcpy hargv)).trans (.memcpy hargbuf)
      rcases vectorRes with err | _
      · cases hcall
        exact hmoved.takes hstored _ _
      · have hstack := hstored.trans (.setupPageMaps s₃ Machine.stackFrameAddr 16 true)
        dsimp only at hcall
        rcases hsetup₂ : s₃.setupPageMaps Machine.stackFrameAddr 16 true with ⟨err | _, s₄⟩
        all_goals
          rw [hsetup₂] at hcall hstack
          cases hcall
          exact hmoved.takes hstack _ _

/-- **A call that fails** leaves no trace just when no frame was free. -/
theorem leavesNoTrace_iff {command : CString} {firstArg : Option CString} {err : Error}
    (hcr3 : ¬ k.machine.memoryManager.IsFree k.machine.cr3)
    (hcall : k.executeFile g v fileEntry outside command firstArg = some (.error err, k')) :
    k.LeavesNoTrace k' fileEntry ↔ ∀ f, ¬ k.machine.memoryManager.IsFree f := by
  rcases executeFile_cases hcall with hmoved | ⟨rfl, hfull⟩
  · constructor
    · intro h
      have hfree := hmoved.cr3
      rw [h.cr3] at hfree
      exact absurd hfree hcr3
    · intro hfull
      exact absurd hmoved.cr3 (hfull _)
  · exact ⟨fun _ => hfull, fun _ => ⟨rfl, rfl, fun f => .inl rfl⟩⟩

end Kernel

/-- A task that runs on the page map in frame 1, with no file in `app_loads`. The frames from `free` on are free. -/
def smallKernel (free : ℕ) : Kernel where
  machine := {
    mem := fun _ _ => .zero
    memoryManager := { getBit := fun f => f < free, rangeBegin := 1, rangeEnd := 64, rangeEnd_le := smallRange }
    cr3 := 1 }
  contextCr3 := 1
  appLoads := fun _ => none

/-- The command `a`, without arguments. -/
def commandA : CString := ⟨[97], by decide, by decide⟩

/-- Without a free frame, the call fails at once. -/
theorem leavesNoTrace_full : (smallKernel 64).LeavesNoTrace (smallKernel 64) ⟨2, 0⟩ := by
  have hcall : (smallKernel 64).executeFile smallBPB (smallFile 10) ⟨2, 0⟩ (fun _ => none) commandA none =
      some (.error .noEnoughMemory, smallKernel 64) := rfl
  refine (Kernel.leavesNoTrace_iff (fun h => by cases h.2) hcall).mpr fun f hf => ?_
  have hbit := of_decide_eq_false hf.2
  exact hbit hf.1.2

/-- A file of ten zero bytes is no ELF file. The task goes on with a page map of its own. -/
theorem notElf_leaves_trace : ∃ k',
    (smallKernel 7).executeFile smallBPB (smallFile 10) ⟨2, 0⟩ (fun _ => none) commandA none =
    some (.error .invalidFile, k') ∧ ¬ (smallKernel 7).LeavesNoTrace k' ⟨2, 0⟩ := by
  have hcall : (((smallKernel 7).executeFile smallBPB (smallFile 10) ⟨2, 0⟩ (fun _ => none) commandA none).map fun r =>
      match r.1 with
      | .error err => (some err, r.2.machine.cr3)
      | .ok _ => (none, 0)) = some (some .invalidFile, 7) := by
    decide +kernel
  obtain ⟨⟨err | _, k'⟩, hcall, hres⟩ := Option.map_eq_some_iff.mp hcall
  · simp only [Prod.mk.injEq, Option.some.injEq] at hres
    obtain ⟨rfl, hcr3⟩ := hres
    refine ⟨k', hcall, fun h => ?_⟩
    rw [h.cr3] at hcr3
    cases hcr3
  · simp only [Prod.mk.injEq] at hres
    cases hres.1

end DuvuvurKernel
