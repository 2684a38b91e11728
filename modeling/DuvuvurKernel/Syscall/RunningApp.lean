import DuvuvurKernel.Fat.Loading
import DuvuvurKernel.Paging.NewPages
import DuvuvurKernel.Syscall.AppMemory

/-!
# A running application and its memory

An application demands pages and maps files, and the page faults it raises are answered from what it has asked for.

## The model

`RunningApp` is what the kernel keeps of the application, with the machine and the volume. A page fault that is not
answered ends the application, so it is no step (`RunningApp.Step`). Other applications run in between.

**Result** (`Runs.step`): as long as there is room for what is asked for, the ranges stay apart, and between the
demanded pages and the mapped files there are no pages.
-/

namespace DuvuvurKernel

open Lib.TableTrees Fat

/-! ### Pages by their addresses -/

/-- The frame of the page of an address, in the page map of a run. -/
def Machine.pageAt (s : Machine) (r addr : ℕ) : Option ℕ :=
  pageIn s.mem 3 r ((LinearAddress4Level.ofValue addr).pageNumber 4)

variable {base : ℕ → Prop} {others runs : Multiset ℕ} {s s' s₁ : Machine} {r f image pml4 addr addr' : ℕ}
    {words : ℕ → PageMapEntry}

/-- The number of the page of an address. -/
theorem pageNumber_ofValue (h : AppAddress addr) :
    (LinearAddress4Level.ofValue addr).pageNumber 4 = addr / 4096 - (2 ^ 52 - 2 ^ 36) := by
  obtain ⟨hge, hlt⟩ := h
  show addr / 2 ^ 39 % 512 * 512 ^ 3 + (addr / 2 ^ 30 % 512 * 512 ^ 2 + (addr / 2 ^ 21 % 512 * 512 ^ 1 +
    (addr / 2 ^ 12 % 512 * 512 ^ 0 + 0))) = _
  omega

theorem pageNumber_inj (h : AppAddress addr) (h' : AppAddress addr') : (LinearAddress4Level.ofValue addr).pageNumber 4 =
    (LinearAddress4Level.ofValue addr').pageNumber 4 ↔ addr / 4096 = addr' / 4096 := by
  rw [pageNumber_ofValue h, pageNumber_ofValue h']
  obtain ⟨hge, hlt⟩ := h
  obtain ⟨hge', hlt'⟩ := h'
  omega

theorem pageNumber_mem_app (h : AppAddress addr) : (LinearAddress4Level.ofValue addr).pageNumber 4 / 512 ^ 3 ∈ app := by
  rw [(pageNumber_div_mod _ 3).1]
  exact part_mem_app h.part

/-- Every page of the applications has an address. -/
theorem exists_pageNumber {k : ℕ} (hk : k / 512 ^ 3 ∈ app) : ∃ addr, AppAddress addr ∧ 4096 ∣ addr ∧
    (LinearAddress4Level.ofValue addr).pageNumber 4 = k := by
  obtain ⟨hge, hlt⟩ := mem_app.mp hk
  have happ : AppAddress (4096 * (k + (2 ^ 52 - 2 ^ 36))) := ⟨by omega, by omega⟩
  refine ⟨_, happ, Nat.dvd_mul_right _ _, ?_⟩
  rw [pageNumber_ofValue happ, Nat.mul_div_cancel_left _ (by decide), Nat.add_sub_cancel]

theorem pageAt_congr (h : ∀ f ∈ {r} + s.below false app 3 r, s'.mem f = s.mem f) (ha : AppAddress addr) :
    s'.pageAt r addr = s.pageAt r addr := pageIn_congr h (pageNumber_mem_app ha)

theorem AddsPage.pageAt_of_ne {k₀ : ℕ} (h : AddsPage s s' r k₀ words) (ha : AppAddress addr)
    (hne : (LinearAddress4Level.ofValue addr).pageNumber 4 ≠ k₀) : s'.pageAt r addr = s.pageAt r addr :=
  h.others _ (pageNumber_mem_app ha) hne

namespace Accounts

/-- What the application finds at an address. -/
theorem translate_pageAt (h : Accounts base s (r ::ₘ others)) (hr : s.cr3 = r) (ha : AppAddress addr) :
    (s.translate (.ofValue addr)).map Page.frame = s.pageAt r addr := (h.translate hr ha.part).1

theorem loadByte (h : Accounts base s (r ::ₘ others)) (hr : s.cr3 = r) (ha : AppAddress addr) :
    s.loadByte addr = (s.pageAt r addr).map fun f => pageByte (s.mem f) (addr % 4096) := by
  rw [← h.translate_pageAt hr ha, Option.map_map]
  rfl

/-- A page that may be written is none of the page maps. -/
theorem writable_notMem {a : LinearAddress4Level} {p : Page} (h : Accounts base s (r ::ₘ others)) (hr : s.cr3 = r)
    (ha : 256 ≤ a.part 4) (hp : s.translate a = some p) (hw : p.writable = true) :
    p.frame ∉ {r} + s.below false app 3 r := by
  unfold Machine.translate at hp
  rw [hr] at hp
  have hi := part_mem_app ha
  exact (walk_owned h.sound hi (h.usable_head _ hi) a.pageNumber_lt hp hw).2

/-- A frame in use that belongs to no other belongs to the run. -/
theorem mem_owned (h : Accounts base s (r ::ₘ others)) (hused : s.memoryManager.getBit f = true) (hbase : ¬ base f)
    (hother : f ∉ others.bind s.owned) : f ∈ s.owned r := by
  have hf := ((h.bits f).mp hused).resolve_left hbase
  rw [Multiset.cons_bind, Multiset.mem_add] at hf
  exact hf.resolve_right hother

/-- What is in use and belongs to no other still does not, after what is done for the run. -/
theorem owned_of_serves (h : Accounts base s (r ::ₘ others)) (hserves : Serves base others r s s')
    (hf : f ∈ s.owned r ∨ s.memoryManager.getBit f = false) (hused : s'.memoryManager.getBit f = true) :
    f ∈ s'.owned r := by
  have hrest : others.bind s'.owned = others.bind s.owned ∧
      ((∀ r ∈ others, s.AppUsable r) → ∀ r ∈ others, s'.AppUsable r) :=
    rest_congr fun f hf => hserves.spares f (.inr hf)
  refine hserves.accounts.mem_owned hused (fun hb => ?_) fun hother => ?_
  · obtain ⟨hbit, hout⟩ := h.base_used hb
    rcases hf with hf | hf
    · exact hout hf
    · rw [hbit] at hf
      cases hf
  · rw [hrest.1] at hother
    obtain ⟨hbit, hout⟩ := h.other hother
    rcases hf with hf | hf
    · exact hout hf
    · rw [hbit] at hf
      cases hf

end Accounts

/-! ### Whose the pages are -/

/-- The pages of a run are shared with `app_loads`, or its own. -/
def PagesOf (base : ℕ → Prop) (s : Machine) (r : ℕ) : Prop :=
  ∀ k f, k / 512 ^ 3 ∈ app → pageIn s.mem 3 r k = some f → base f ∨ f ∈ s.owned r

theorem PagesOf.used (h : PagesOf base s r) (hacc : Accounts base s (r ::ₘ others)) : PagesUsed s app 3 r := by
  intro k f hk hf
  refine (hacc.bits f).mpr ((h k f hk hf).imp_right fun howned => ?_)
  rw [Multiset.cons_bind, Multiset.mem_add]
  exact .inl howned

/-- A new page belongs to the run. -/
theorem PagesOf.addsPage {k₀ : ℕ} (h : PagesOf base s r) (hacc : Accounts base s (r ::ₘ others))
    (hserves : Serves base others r s s') (hadds : AddsPage s s' r k₀ words) : PagesOf base s' r := by
  intro k f hk hf
  by_cases hne : k = k₀
  · obtain ⟨f', hpage, -, hfree, hused, -⟩ := hadds.page
    rw [hne] at hf
    cases hf.symm.trans hpage
    exact .inr (hacc.owned_of_serves hserves (.inr hfree) hused)
  · rw [hadds.others k hk hne] at hf
    refine (h k f hk hf).imp_right fun howned => ?_
    exact hacc.owned_of_serves hserves (.inl howned) (hadds.bits f (h.used hacc k f hk hf))

/-- Pages that have been set up belong to the run. -/
theorem PagesOf.setup {a : LinearAddress4Level} {num num' : ℕ} (h : PagesOf base s r)
    (hacc : Accounts base s (r ::ₘ others)) (hr : s.cr3 = r) (ha : 256 ≤ a.part 4)
    (habs : ∀ k ∈ asked 3 a num, pageIn s.mem 3 r k = none) (hcall : s.setupPageMaps a num true = (.ok num', s')) :
    PagesOf base s' r := by
  obtain ⟨hset, -⟩ := hacc.setup hr ha habs hcall
  obtain ⟨Y, Z, hg, hpages⟩ := hset.grows
  have howned : s'.owned r = s.owned r + (Y + Z) := by
    unfold Machine.owned
    rw [hg.owned rfl, add_assoc]
  intro k f hk hf
  rw [howned, Multiset.mem_add]
  by_cases hin : k ∈ asked 3 a num
  · obtain ⟨f', hf', hnew⟩ := hpages num' rfl k hin
    cases hf.symm.trans hf'
    refine .inr (.inr (Multiset.mem_add.mpr (.inr (hnew.resolve_left fun hold => ?_))))
    rw [habs k hin] at hold
    cases hold
  · rw [hg.pages k hk hin] at hf
    exact (h k f hk hf).imp_right .inl

/-- What changes none of the page maps of the run. -/
theorem PagesOf.congr (h : PagesOf base s r) (hmem : ∀ f ∈ {r} + s.below false app 3 r, s'.mem f = s.mem f) :
    PagesOf base s' r := by
  intro k f hk hf
  rw [pageIn_congr hmem hk] at hf
  rw [(owned_congr hmem).1]
  exact h k f hk hf

/-- **At the start of a run** its pages are those of the file, and those of the stack and the arguments. -/
theorem PagesOf.enterApp {argc : Except Error ℕ} {argv : ℕ → PageMapEntry} (hacc : Accounts base s runs)
    (hc : Cached base s image) (hb : BelowStack s image) (hcall : s.enterApp image argc argv = some (.ok pml4, s')) :
    PagesOf base s' pml4 := by
  unfold Machine.enterApp at hcall
  rcases hload : s.loadApp image with ⟨err | r, s₁⟩
  · rw [hload] at hcall
    cases hcall
  rw [hload] at hcall
  obtain ⟨-, hstart⟩ := hacc.loadApp hc hload
  obtain ⟨r', hacc₁, hr, hok⟩ := hstart.resolve_left fun ⟨_, err, herr⟩ => by cases herr
  obtain ⟨rfl, hpages⟩ := hok r rfl
  have hown : PagesOf base s₁ r := by
    intro k f hk hf
    have hlt : k < 512 ^ 4 := by
      have hslot := (mem_app.mp hk).2
      omega
    rw [hpages k hk hlt] at hf
    exact .inl (hc.pages k f hk hf)
  have hnone : ∀ k, Machine.stackFrameAddr.pageNumber 4 ≤ k → k < 512 ^ 4 → pageIn s₁.mem 3 r k = none :=
    fun k hge hlt => (hpages k (aboveStack_mem_app hge hlt) hlt).trans (hb k hge hlt)
  have hargs : 256 ≤ Machine.argsFrameAddr.part 4 := by decide
  have habs : ∀ k ∈ asked 3 Machine.argsFrameAddr 1, pageIn s₁.mem 3 r k = none := by
    rintro k ⟨hge, -, hlt⟩
    rw [argsFrameAddr_pageNumber] at hge
    exact hnone k (by omega) hlt
  dsimp only at hcall
  rcases hsetup : s₁.setupPageMaps Machine.argsFrameAddr 1 true with ⟨err | num, s₂⟩
  · rw [hsetup] at hcall
    cases hcall
  have hown₂ := hown.setup hacc₁ hr hargs habs hsetup
  obtain ⟨hset, -⟩ := hacc₁.setup hr hargs habs hsetup
  obtain ⟨page, hwalk, -, htable, hstore⟩ := hacc₁.store_new hr hargs habs hsetup
  have hserves := hstore argv
  have hmem : ∀ f ∈ {r} + s₂.below false app 3 r, (s₂.setFrame page.frame argv).mem f = s₂.mem f := by
    intro f hf
    refine Function.update_of_ne ?_ _ _
    rintro rfl
    exact htable hf
  have hown₃ := hown₂.congr hmem
  rw [hsetup] at hcall
  obtain ⟨s₃, hs₃, hcall⟩ := Option.bind_eq_some_iff.mp hcall
  rw [Machine.storePage, hwalk] at hs₃
  cases hs₃
  cases argc with
  | error err => cases hcall
  | ok argc =>
    have habs₃ : ∀ k ∈ asked 3 Machine.stackFrameAddr 16, pageIn (s₂.setFrame page.frame argv).mem 3 r k = none := by
      rintro k ⟨hge, hle, hlt⟩
      have hslot := aboveStack_mem_app hge hlt
      obtain ⟨Y, Z, hg, -⟩ := hset.grows
      rw [pageIn_congr hmem hslot, hg.pages k hslot fun hk => ?_]
      · exact hnone k hge hlt
      · have hfirst : Machine.argsFrameAddr.pageNumber 4 ≤ k := hk.1
        have hlast : k < Machine.stackFrameAddr.pageNumber 4 + 16 := hle
        rw [argsFrameAddr_pageNumber] at hfirst
        omega
    dsimp only at hcall
    rcases hsetup₃ : (s₂.setFrame page.frame argv).setupPageMaps Machine.stackFrameAddr 16 true with ⟨err | num, s₄⟩
    · rw [hsetup₃] at hcall
      cases hcall
    · rw [hsetup₃] at hcall
      cases hcall
      exact hown₃.setup hserves.accounts (hserves.cr3.trans hr) (by decide) habs₃ hsetup₃

/-! ### The application -/

/-- An open file of a task. -/
inductive OpenFile where
  /-- A terminal or a pipe. -/
  | stream
  /-- A file of the volume. -/
  | fat (fd : FileDescriptor)

namespace OpenFile

/-- `Size`. -/
def size (v : Volume) : OpenFile → ℕ
  | .stream => 0
  | .fat fd => v.fileSize fd.entry

/-- `Load`. -/
def load (g : BPB) (v : Volume) (len offset : ℕ) : OpenFile → Option (List UInt8)
  | .stream => some []
  | .fat fd => fd.load g v len offset

theorem size_lt (v : Volume) (file : OpenFile) : file.size v < 2 ^ 32 := by
  cases file with
  | stream => exact Nat.pow_pos (by decide)
  | fat fd => exact fileSize_lt fd.entry

theorem toNat_size (v : Volume) (file : OpenFile) : (UInt64.ofNat (file.size v)).toNat = file.size v := by
  have hlt := file.size_lt v
  exact UInt64.toNat_ofNat_of_lt' (lt_trans hlt (by decide))

end OpenFile

/-- An application, with the machine and the volume. -/
structure RunningApp where
  machine : Machine
  memory : AppMemory
  /-- `Files`. -/
  files : ℕ → Option OpenFile
  volume : Volume

/-- What happens while the application runs. -/
inductive AppAction where
  /-- `DemandPages`. -/
  | demandPages (numPages : UInt64)
  /-- `MapFile`. -/
  | mapFile (fd : ℕ)
  /-- The application raises a page fault, and goes on. -/
  | fault (errorCode addr : ℕ)
  /-- The application stores to a page. -/
  | store (addr : ℕ) (words : ℕ → PageMapEntry)
  /-- The task is switched. -/
  | switch (cr3 : ℕ)
  /-- Another application stores, or raises a page fault. -/
  | other
  /-- Files are opened, or read. -/
  | files (files : ℕ → Option OpenFile)
  /-- Files are made, or written to. -/
  | volume (v : Volume)

namespace RunningApp

/-- `MapFile`, of an open file. -/
def mapFile (x : RunningApp) (fd : ℕ) : Except Errno ℕ × AppMemory :=
  x.memory.mapFile fd ((x.files fd).map fun file => UInt64.ofNat (file.size x.volume))

/-- What `HandlePageFault` reads of the task. A `Load` that does not come to an end gives nothing away. -/
structure Reads (g : BPB) (x : RunningApp) (t : TaskMemory) : Prop where
  dpagingBegin : t.dpagingBegin = x.memory.dpagingBegin
  dpagingEnd : t.dpagingEnd = x.memory.dpagingEnd
  fileMaps : t.fileMaps = x.memory.fileMaps
  load : ∀ fd file offset bytes, x.files fd = some file → file.load g x.volume 4096 offset = some bytes →
    t.load fd offset = bytes

/-- A step, while the application has the page map `r`. -/
inductive Step (g : BPB) (r : ℕ) (others : Multiset ℕ) : AppAction → RunningApp → RunningApp → Prop where
  | demandPages {x : RunningApp} (numPages : UInt64) : x.machine.cr3 = r →
      Step g r others (.demandPages numPages) x { x with memory := (x.memory.demandPages numPages).2 }
  | mapFile {x : RunningApp} (fd : ℕ) : x.machine.cr3 = r →
      Step g r others (.mapFile fd) x { x with memory := (x.mapFile fd).2 }
  | fault {x : RunningApp} {t : TaskMemory} {errorCode addr : ℕ} {s : Machine} :
    x.machine.cr3 = r → x.Reads g t → AppAddress addr →
      x.machine.Raises (.ofValue addr) errorCode → x.machine.handlePageFault t errorCode addr = some (.ok (), s) →
      Step g r others (.fault errorCode addr) x { x with machine := s }
  | store {x : RunningApp} {addr : ℕ} {page : Page} (words : ℕ → PageMapEntry) : x.machine.cr3 = r → AppAddress addr →
      x.machine.translate (.ofValue addr) = some page → page.user = true → page.writable = true →
      Step g r others (.store addr words) x { x with machine := x.machine.setFrame page.frame words }
  | switch {x : RunningApp} (cr3 : ℕ) :
      Step g r others (.switch cr3) x { x with machine := { x.machine with cr3 := cr3 } }
  | other {x : RunningApp} {s : Machine} : x.machine.cr3 ∈ others → AppStep x.machine s →
      Step g r others .other x { x with machine := s }
  | files {x : RunningApp} (files : ℕ → Option OpenFile) : Step g r others (.files files) x { x with files := files }
  | volume {x : RunningApp} (v : Volume) : Step g r others (.volume v) x { x with volume := v }

/-- There is room for what is asked for, between the demanded pages and the mapped files. -/
def HasRoom (x : RunningApp) : AppAction → Prop
  | .demandPages numPages => x.memory.dpagingEnd + 4096 * numPages.toNat ≤ x.memory.fileMapEnd
  | .mapFile fd => ∀ file, x.files fd = some file → x.memory.dpagingEnd + file.size x.volume ≤ x.memory.fileMapEnd
  | _ => True

/-- What holds while the application runs. -/
structure Runs (base : ℕ → Prop) (r : ℕ) (others : Multiset ℕ) (x : RunningApp) : Prop where
  accounts : Accounts base x.machine (r ::ₘ others)
  pages : PagesOf base x.machine r
  ordered : x.memory.Ordered
  room : x.memory.dpagingEnd ≤ x.memory.fileMapEnd
  aligned : ∀ m ∈ x.memory.fileMaps, 4096 ∣ m.vaddrBegin ∧ 4096 ∣ m.vaddrEnd
  absent : ∀ addr, x.memory.dpagingEnd ≤ addr → addr < x.memory.fileMapEnd → x.machine.pageAt r addr = none

variable {g : BPB} {x x' : RunningApp} {t : TaskMemory} {m : FileMapping} {fd errorCode : ℕ}

namespace Runs

theorem appAddress (h : Runs base r others x) (hge : x.memory.dpagingEnd ≤ addr) (hlt : addr < stackEnd) :
    AppAddress addr := by
  have happ := h.ordered.app_le
  have hle := h.ordered.begin_le_end
  have hstack : stackEnd = 0xffffffffffffffff - 4095 := by decide
  rw [AppMemory.appBegin_eq] at happ
  exact ⟨by omega, by omega⟩

theorem appAddress_of_covers (h : Runs base r others x) (hm : m ∈ x.memory.fileMaps) (hcov : m.Covers addr) :
    AppAddress addr :=
  h.ordered.layout.maps_app m hm addr hcov

/-- What is done for the application adds a page elsewhere. -/
theorem addsPage {addr₀ : ℕ} (h : Runs base r others x) (hserves : Serves base others r x.machine s)
    (hadds : AddsPage x.machine s r ((LinearAddress4Level.ofValue addr₀).pageNumber 4) words) (ha : AppAddress addr₀)
    (hout : x.memory.dpagingEnd ≤ addr₀ → x.memory.fileMapEnd ≤ addr₀) :
    Runs base r others { x with machine := s } := by
  refine ⟨hserves.accounts, h.pages.addsPage h.accounts hserves hadds, h.ordered, h.room, h.aligned,
    fun addr hge hlt => ?_⟩
  have hstack := h.ordered.fileMapEnd_le
  have hend : stackEnd = stackBegin + 65536 := rfl
  have happ := h.appAddress hge (by dsimp only at hlt; omega)
  rw [← h.absent addr hge hlt]
  refine hadds.pageAt_of_ne happ fun hsame => ?_
  -- The ranges start and end at pages.
  have hpage := (pageNumber_inj happ ha).mp hsame
  obtain ⟨j, hj⟩ := h.ordered.dpagingEnd_aligned
  obtain ⟨k, hk⟩ := h.ordered.fileMapEnd_aligned
  dsimp only at hge hlt
  omega

/-- What changes none of the page maps of the application. -/
theorem congr (h : Runs base r others x) (hacc : Accounts base s (r ::ₘ others))
    (hmem : ∀ f ∈ {r} + x.machine.below false app 3 r, s.mem f = x.machine.mem f) :
    Runs base r others { x with machine := s } := by
  refine ⟨hacc, h.pages.congr hmem, h.ordered, h.room, h.aligned, fun addr hge hlt => ?_⟩
  have hstack := h.ordered.fileMapEnd_le
  have hend : stackEnd = stackBegin + 65536 := rfl
  rw [← h.absent addr hge hlt]
  exact pageAt_congr hmem (h.appAddress hge (by dsimp only at hlt; omega))

/-- A page fault of the application: what it adds. -/
theorem fault (h : Runs base r others x) (hr : x.machine.cr3 = r) (hreads : x.Reads g t) (ha : AppAddress addr)
    (hraise : x.machine.Raises (.ofValue addr) errorCode)
    (hcall : x.machine.handlePageFault t errorCode addr = some (.ok (), s)) :
    Serves base others r x.machine s ∧ ∃ words,
      AddsPage x.machine s r ((LinearAddress4Level.ofValue addr).pageNumber 4) words ∧
        ((∃ f, x.machine.pageAt r addr = some f ∧ words = x.machine.mem f) ∨
          (x.memory.dpagingBegin ≤ addr ∧ addr < x.memory.dpagingEnd) ∧ words = (fun _ => .zero) ∨
          ∃ m ∈ x.memory.fileMaps, m.Covers addr ∧ words = storeBytes (fun _ => .zero)
            (t.load m.fd (addr - addr % 4096 - m.vaddrBegin))) := by
  obtain ⟨res, s', hcall', hserves, -⟩ := h.accounts.fault (t := t) hr ha.part hraise
  rw [hcall] at hcall'
  cases hcall'
  obtain ⟨words, hadds, hwords⟩ := h.accounts.fault_addsPage (h.pages.used h.accounts) hr ha.part hraise hcall
  refine ⟨hserves, words, hadds, ?_⟩
  rcases hwords with hcopy | ⟨-, ⟨hdemand, hzero⟩ | ⟨m, hm, hwords⟩⟩
  · exact .inl hcopy
  · rw [hreads.dpagingBegin, hreads.dpagingEnd] at hdemand
    exact .inr (.inl ⟨hdemand, hzero⟩)
  · rw [hreads.fileMaps] at hm
    have hcov : m.Covers addr := by simpa [FileMapping.Covers] using List.find?_some hm
    have hmem := List.mem_of_find?_eq_some hm
    refine .inr (.inr ⟨m, hmem, hcov, ?_⟩)
    rw [hwords]
    congr 2
    -- The subtraction does not wrap around: a mapping starts at a page.
    obtain ⟨j, hj⟩ := (h.aligned m hmem).1
    obtain ⟨hge, hlt⟩ := hcov
    obtain ⟨-, hmax⟩ := ha
    show (0 + 2 ^ 12 * (addr / 2 ^ 12 % 512) + 2 ^ 21 * (addr / 2 ^ 21 % 512) + 2 ^ 30 * (addr / 2 ^ 30 % 512) +
      2 ^ 39 * (addr / 2 ^ 39 % 512) + 2 ^ 48 * (addr / 2 ^ 48 % 65536) + 2 ^ 64 - m.vaddrBegin) % 2 ^ 64 = _
    omega

/-- A request for which there is room. -/
theorem memory (req : Request) (h : Runs base r others x) (hfits : x.memory.Fits req)
    (hroom : (x.memory.call req).2.dpagingEnd ≤ (x.memory.call req).2.fileMapEnd)
    (haligned : ∀ m ∈ (x.memory.call req).2.fileMaps, 4096 ∣ m.vaddrBegin ∧ 4096 ∣ m.vaddrEnd)
    (hend : x.memory.dpagingEnd ≤ (x.memory.call req).2.dpagingEnd)
    (hfile : (x.memory.call req).2.fileMapEnd ≤ x.memory.fileMapEnd) :
    Runs base r others { x with memory := (x.memory.call req).2 } where
  accounts := h.accounts
  pages := h.pages
  ordered := (h.ordered.call.1 hfits).1
  room := hroom
  aligned := haligned
  absent := fun addr hge hlt => h.absent addr (hend.trans hge) (lt_of_lt_of_le hlt hfile)

theorem demandPages {numPages : UInt64} (h : Runs base r others x) (hroom : x.HasRoom (.demandPages numPages)) :
    Runs base r others { x with memory := (x.memory.demandPages numPages).2 } := by
  have hroom' : x.memory.dpagingEnd + 4096 * numPages.toNat ≤ x.memory.fileMapEnd := hroom
  have hend : (x.memory.demandPages numPages).2.dpagingEnd = x.memory.dpagingEnd + 4096 * numPages.toNat := by
    have hle := h.ordered.fileMapEnd_le
    rw [AppMemory.stackBegin_eq] at hle
    exact Nat.mod_eq_of_lt (by omega)
  refine h.memory (.demandPages numPages) (.inr hroom') ?_ h.aligned ?_ (Nat.le_refl _)
  · show (x.memory.demandPages numPages).2.dpagingEnd ≤ x.memory.fileMapEnd
    rwa [hend]
  · show x.memory.dpagingEnd ≤ (x.memory.demandPages numPages).2.dpagingEnd
    omega

/-- The mapping that `MapFile` makes. -/
theorem mapFile_eq {file : OpenFile} (h : Runs base r others x) (hfile : x.files fd = some file)
    (hroom : x.HasRoom (.mapFile fd)) :
    ∃ vaddrBegin, x.mapFile fd = (.ok vaddrBegin, { x.memory with
        fileMapEnd := vaddrBegin, fileMaps := x.memory.fileMaps ++ [⟨fd, vaddrBegin, x.memory.fileMapEnd⟩] }) ∧
      4096 ∣ vaddrBegin ∧ vaddrBegin + file.size x.volume ≤ x.memory.fileMapEnd ∧
      x.memory.fileMapEnd < vaddrBegin + file.size x.volume + 4096 ∧ x.memory.dpagingEnd ≤ vaddrBegin := by
  have hroom' := hroom file hfile
  have hsize := file.size_lt x.volume
  have hle := h.ordered.fileMapEnd_le
  rw [AppMemory.stackBegin_eq] at hle
  obtain ⟨j, hj⟩ := h.ordered.dpagingEnd_aligned
  have hnat := file.toNat_size x.volume
  have hsub : (x.memory.fileMapEnd + 2 ^ 64 - file.size x.volume) % 2 ^ 64 =
    x.memory.fileMapEnd - file.size x.volume := by omega
  refine ⟨pageFloor (x.memory.fileMapEnd - file.size x.volume), ?_, ?_⟩
  · rw [mapFile, hfile, Option.map_some, AppMemory.mapFile, hnat, hsub]
  · obtain ⟨⟨k, hk⟩, hfloor, hnext⟩ := AppMemory.pageFloor_spec (x.memory.fileMapEnd - file.size x.volume)
    exact ⟨⟨k, hk⟩, by omega, by omega, by omega⟩

theorem mapFile (h : Runs base r others x) (hroom : x.HasRoom (.mapFile fd)) :
    Runs base r others { x with memory := (x.mapFile fd).2 } := by
  rcases hfile : x.files fd with _ | file
  · have hsame : (x.mapFile fd).2 = x.memory := by rw [RunningApp.mapFile, hfile, Option.map_none, AppMemory.mapFile]
    rw [hsame]
    exact h
  · obtain ⟨vaddrBegin, hcall, hdvd, hle, -, hge⟩ := h.mapFile_eq hfile hroom
    have happ := h.ordered.app_le
    have hend := h.ordered.begin_le_end
    have hsize := file.size_lt x.volume
    have hnat := file.toNat_size x.volume
    have hfits : x.memory.Fits (.mapFile fd (some (UInt64.ofNat (file.size x.volume)))) := by
      rintro n hn
      cases hn
      have hroom' := hroom file hfile
      rw [hnat]
      split
      next => exact hroom'
      next => omega
    have hcall' : x.memory.call (.mapFile fd (some (UInt64.ofNat (file.size x.volume)))) = x.mapFile fd := by
      rw [RunningApp.mapFile, hfile]
      rfl
    have hnew := h.memory _ hfits
    rw [hcall', hcall] at hnew
    rw [hcall]
    refine hnew hge (fun m hm => ?_) (Nat.le_refl _) (by dsimp only; omega)
    rcases List.mem_append.mp hm with hm | hm
    · exact h.aligned m hm
    · rw [List.mem_singleton.mp hm]
      exact ⟨hdvd, h.ordered.fileMapEnd_aligned⟩

/-- **One step** of the application, or of another. -/
theorem step {a : AppAction} (h : Runs base r others x) (hroom : x.HasRoom a) (hstep : Step g r others a x x') :
    Runs base r others x' := by
  cases hstep with
  | demandPages numPages hr => exact h.demandPages hroom
  | mapFile fd hr => exact h.mapFile hroom
  | fault hr hreads ha hraise hcall =>
    obtain ⟨hserves, words, hadds, hwords⟩ := h.fault hr hreads ha hraise hcall
    refine h.addsPage hserves hadds ha fun hge => ?_
    by_contra hlt
    rcases hwords with ⟨f, hf, -⟩ | ⟨hdemand, -⟩ | ⟨m, hm, hcov, -⟩
    · rw [h.absent _ hge (Nat.lt_of_not_le hlt)] at hf
      cases hf
    · omega
    · have := (h.ordered.within m hm).1
      have := hcov.1
      omega
  | store words hr ha hp _ hw =>
    have hserves := h.accounts.store_page hr ha.part hp hw words
    refine h.congr hserves.accounts fun f hf => Function.update_of_ne ?_ _ _
    rintro rfl
    exact h.accounts.writable_notMem hr ha.part hp hw hf
  | switch cr3 => exact ⟨h.accounts.switch cr3, h.pages, h.ordered, h.room, h.aligned, h.absent⟩
  | other hother happ =>
    obtain ⟨rest, hrest⟩ := Multiset.exists_cons_of_mem hother
    have hacc := h.accounts
    rw [hrest, Multiset.cons_swap] at hacc
    have hserves := happ.serves hacc rfl
    refine h.congr ?_ fun f hf => hserves.spares f (.inr ?_)
    · rw [hrest, Multiset.cons_swap]
      exact hserves.accounts
    · rw [Multiset.cons_bind, Multiset.mem_add]
      exact .inl (Multiset.mem_of_le (tables_le_owned _ r) hf)
  | files files => exact ⟨h.accounts, h.pages, h.ordered, h.room, h.aligned, h.absent⟩
  | volume v => exact ⟨h.accounts, h.pages, h.ordered, h.room, h.aligned, h.absent⟩

end Runs

end RunningApp

end DuvuvurKernel
