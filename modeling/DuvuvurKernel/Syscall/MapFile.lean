import DuvuvurKernel.Fat.RoundTrip
import DuvuvurKernel.Syscall.RunningApp

/-!
# Files that are mapped

`MapFile` gives an application a range of addresses, and `PreparePageCache` reads the file page by page, when the
application comes to an address for the first time.

**Result** (`mapFile_shows`): whatever the application does in between, and in whatever order it comes to the pages,
at byte `k` of the range it finds byte `k` of the file, and zeros after the end of the file; or there is no
frame left for the page. The ranges of all mapped files are apart, start and end at pages, and lie below the stack.
-/

namespace DuvuvurKernel

open Lib.TableTrees Fat

/-! ### What a file contains -/

/-- The clusters of a file, whose chain is well formed. -/
structure Fat.FileClusters (g : BPB) (v : Volume) (e : EntryPtr) (cs : List ℕ) : Prop where
  chain : IsChain g v.fat (v.firstCluster e) cs
  size_le : v.fileSize e ≤ cs.length * g.bytesPerCluster
  inData : ∀ c ∈ cs, g.InData c

/-- A file has not been modified. -/
def Fat.Unmodified (g : BPB) (v v' : Volume) (e : EntryPtr) : Prop :=
  ∀ cs, FileClusters g v e cs → FileClusters g v' e cs ∧ v'.fileSize e = v.fileSize e ∧ ∀ c ∈ cs, v'.data c = v.data c

/-- The bytes of a file, and zeros after its end. -/
def Fat.mappedByte (g : BPB) (v : Volume) (e : EntryPtr) (cs : List ℕ) (k : ℕ) : UInt8 :=
  if k < v.fileSize e then v.fileByte g cs k else 0

variable {g : BPB} {v v' : Volume} {e : EntryPtr} {cs : List ℕ} {q j k : ℕ}

theorem fileByte_eq (h : FileClusters g v e cs) (hdata : ∀ c ∈ cs, v'.data c = v.data c) (hk : k < v.fileSize e) :
    v'.fileByte g cs k = v.fileByte g cs k := by
  have hlt : k / g.bytesPerCluster < cs.length :=
    Nat.div_lt_of_lt_mul (by have := h.size_le; rw [Nat.mul_comm] at this; omega)
  rw [Volume.fileByte, Volume.fileByte, List.getElem?_eq_getElem hlt, Option.getD_some, hdata _ (List.getElem_mem hlt)]

/-- A page that `Load` has filled. -/
theorem pageByte_load (hg : g.WellFormed) {fd : FileDescriptor} (h : FileClusters g v fd.entry cs)
    (hq : q ≤ v.fileSize fd.entry) :
    ∃ bytes, fd.load g v 4096 q = some bytes ∧
      ∀ j < 4096, pageByte (storeBytes (fun _ => .zero) bytes) j = mappedByte g v fd.entry cs (q + j) := by
  refine ⟨_, load_spec hg h.chain hq h.size_le h.inData, fun j hj => ?_⟩
  rw [pageByte_storeBytes, pageByte_zero, mappedByte, Volume.fileBytes, List.getElem?_map]
  by_cases hlt : q + j < v.fileSize fd.entry
  · rw [List.getElem?_range (by omega), if_pos hlt]
    rfl
  · rw [List.getElem?_eq_none (by rw [List.length_range]; omega), if_neg hlt]
    rfl

/-! ### The pages of a mapped file -/

/-- The frame of the page of an address belongs to the run, and is at this address only. -/
structure OwnPage (s : Machine) (r addr f : ℕ) : Prop where
  owned : f ∈ s.owned r
  notTable : f ∉ {r} + s.below false app 3 r
  once : ∀ a, AppAddress a → s.pageAt r a = some f → a / 4096 = addr / 4096

/-- The file is mapped, with the bytes `byte`: what is there of its pages contains them. -/
structure MapsFile (g : BPB) (r : ℕ) (x : RunningApp) (m : FileMapping) (e : EntryPtr) (cs : List ℕ)
    (byte : ℕ → UInt8) : Prop where
  mem : m ∈ x.memory.fileMaps
  file : ∃ fd : FileDescriptor, x.files m.fd = some (.fat fd) ∧ fd.entry = e
  contents : FileClusters g x.volume e cs
  byte_eq : ∀ k, mappedByte g x.volume e cs k = byte k
  size_lt : m.vaddrEnd < m.vaddrBegin + x.volume.fileSize e + 4096
  pages : ∀ addr f, m.Covers addr → x.machine.pageAt r addr = some f →
    OwnPage x.machine r addr f ∧ pageByte (x.machine.mem f) (addr % 4096) = byte (addr - m.vaddrBegin)

/-- What is asked of a step, for the mapped file to be left alone: the application does not store to it, the descriptor
stays that of the file, and the file is not modified. -/
def RunningApp.Leaves (g : BPB) (x : RunningApp) (m : FileMapping) : AppAction → Prop
  | .store addr _ => ¬ m.Covers addr
  | .files files =>
    ∀ fd : FileDescriptor, x.files m.fd = some (.fat fd) → ∃ fd' : FileDescriptor, files m.fd = some (.fat fd') ∧
      fd'.entry = fd.entry
  | .volume v => ∀ fd : FileDescriptor, x.files m.fd = some (.fat fd) → Unmodified g x.volume v fd.entry
  | _ => True

variable {base : ℕ → Prop} {others : Multiset ℕ} {r f addr addr₀ : ℕ} {s : Machine} {x x' : RunningApp}
    {m m' : FileMapping}
  {byte : ℕ → UInt8} {words : ℕ → PageMapEntry} {t : TaskMemory} {errorCode : ℕ}

open RunningApp

/-- No two mappings cover an address. -/
theorem RunningApp.Runs.mapping_unique (h : Runs base r others x) (hm : m ∈ x.memory.fileMaps)
    (hm' : m' ∈ x.memory.fileMaps) (hcov : m.Covers addr) (hcov' : m'.Covers addr) : m = m' := by
  obtain ⟨i, hi, rfl⟩ := List.getElem_of_mem hm
  obtain ⟨j, hj, rfl⟩ := List.getElem_of_mem hm'
  have hapart := List.pairwise_iff_getElem.mp h.ordered.apart
  obtain ⟨hge, hlt⟩ := hcov
  obtain ⟨hge', hlt'⟩ := hcov'
  rcases Nat.lt_trichotomy i j with hij | rfl | hij
  · have := hapart i j hi hj hij
    omega
  · rfl
  · have := hapart j i hj hi hij
    omega

namespace MapsFile

/-- Another page than one of the file has been added. -/
theorem page_of_ne (h : MapsFile g r x m e cs byte) (hruns : Runs base r others x)
    (hserves : Serves base others r x.machine s)
    (hadds : AddsPage x.machine s r ((LinearAddress4Level.ofValue addr₀).pageNumber 4) words) (ha : AppAddress addr₀)
    (hcov : m.Covers addr) (hne : addr / 4096 ≠ addr₀ / 4096) (hf : s.pageAt r addr = some f) :
    OwnPage s r addr f ∧ pageByte (s.mem f) (addr % 4096) = byte (addr - m.vaddrBegin) := by
  have happ := hruns.appAddress_of_covers h.mem hcov
  rw [hadds.pageAt_of_ne happ fun hsame => hne ((pageNumber_inj happ ha).mp hsame)] at hf
  obtain ⟨hown, hbyte⟩ := h.pages addr f hcov hf
  have hused : x.machine.memoryManager.getBit f = true :=
    hruns.pages.used hruns.accounts _ f (pageNumber_mem_app happ) hf
  refine ⟨⟨hruns.accounts.owned_of_serves hserves (.inl hown.owned) (hadds.bits f hused),
    fun htable => ?_, fun a ha' hpage => ?_⟩, ?_⟩
  · rcases hadds.tables f htable with hold | hfree
    · exact hown.notTable hold
    · rw [hused] at hfree
      cases hfree
  · by_cases hsame : a / 4096 = addr₀ / 4096
    · -- The new page is in a frame that was free.
      obtain ⟨f', hpage', -, hfree, -⟩ := hadds.page
      rw [Machine.pageAt, (pageNumber_inj ha' ha).mpr hsame, hpage'] at hpage
      cases hpage
      rw [hused] at hfree
      cases hfree
    · rw [hadds.pageAt_of_ne ha' fun hc => hsame ((pageNumber_inj ha' ha).mp hc)] at hpage
      exact hown.once a ha' hpage
  · rw [hadds.frame f hused hown.notTable]
    exact hbyte

/-- A new page belongs to the run, and is at one address. -/
theorem ownPage_new (hruns : Runs base r others x) (hserves : Serves base others r x.machine s)
    (hadds : AddsPage x.machine s r ((LinearAddress4Level.ofValue addr₀).pageNumber 4) words) (ha : AppAddress addr₀)
    (happ : AppAddress addr) (heq : addr / 4096 = addr₀ / 4096) (hf : s.pageAt r addr = some f) :
    OwnPage s r addr f ∧ s.mem f = words := by
  obtain ⟨f', hpage, hwords, hfree, hused, hout⟩ := hadds.page
  rw [Machine.pageAt, (pageNumber_inj happ ha).mpr heq, hpage] at hf
  cases hf
  refine ⟨⟨hruns.accounts.owned_of_serves hserves (.inr hfree) hused, hout, fun a ha' hf => ?_⟩, hwords⟩
  by_contra hne
  rw [hadds.pageAt_of_ne ha' fun hc => hne (((pageNumber_inj ha' ha).mp hc).trans heq.symm)] at hf
  rw [hruns.pages.used hruns.accounts _ _ (pageNumber_mem_app ha') hf] at hfree
  cases hfree

/-- The page of a mapped file is filled with its bytes. -/
theorem byte_of_load (hg : g.WellFormed) (h : MapsFile g r x m e cs byte) (hruns : Runs base r others x)
    (hreads : x.Reads g t) (hcov : m.Covers addr₀) (heq : addr / 4096 = addr₀ / 4096) :
    pageByte (storeBytes (fun _ => .zero) (t.load m.fd (addr₀ - addr₀ % 4096 - m.vaddrBegin))) (addr % 4096) =
      byte (addr - m.vaddrBegin) := by
  obtain ⟨fd, hfile, rfl⟩ := h.file
  obtain ⟨hge, hlt⟩ := hcov
  obtain ⟨⟨i, hi⟩, j, hj⟩ := hruns.aligned m h.mem
  have hsize := h.size_lt
  obtain ⟨bytes, hload, hbytes⟩ := pageByte_load (q := addr₀ - addr₀ % 4096 - m.vaddrBegin) hg h.contents (by omega)
  rw [hreads.load m.fd (.fat fd) _ bytes hfile hload, hbytes _ (Nat.mod_lt _ (by decide)), ← h.byte_eq]
  congr 1
  omega

/-- **A page fault of the application** keeps the mapped file. -/
theorem fault (hg : g.WellFormed) (h : MapsFile g r x m e cs byte) (hruns : Runs base r others x)
    (hr : x.machine.cr3 = r) (hreads : x.Reads g t) (ha : AppAddress addr₀)
    (hraise : x.machine.Raises (.ofValue addr₀) errorCode)
    (hcall : x.machine.handlePageFault t errorCode addr₀ = some (.ok (), s)) :
    MapsFile g r { x with machine := s } m e cs byte := by
  obtain ⟨hserves, words, hadds, hwords⟩ := hruns.fault hr hreads ha hraise hcall
  refine ⟨h.mem, h.file, h.contents, h.byte_eq, h.size_lt, fun addr f hcov hf => ?_⟩
  by_cases heq : addr / 4096 = addr₀ / 4096
  · have happ := hruns.appAddress_of_covers h.mem hcov
    obtain ⟨hown, hmem⟩ := ownPage_new hruns hserves hadds ha happ heq hf
    obtain ⟨⟨i, hi⟩, j, hj⟩ := hruns.aligned m h.mem
    have hcov₀ : m.Covers addr₀ := by
      obtain ⟨hge, hlt⟩ := hcov
      exact ⟨by omega, by omega⟩
    refine ⟨hown, ?_⟩
    dsimp only
    rw [hmem]
    rcases hwords with ⟨f₀, hf₀, rfl⟩ | ⟨hdemand, -⟩ | ⟨m', hm', hcov', rfl⟩
    · -- A copy of a page of the file.
      rw [Machine.pageAt, ← (pageNumber_inj happ ha).mpr heq] at hf₀
      exact (h.pages addr f₀ hcov hf₀).2
    · have := (hruns.ordered.within m h.mem).1
      have := hruns.room
      have := hcov₀.1
      omega
    · obtain rfl := hruns.mapping_unique h.mem hm' hcov₀ hcov'
      exact h.byte_of_load hg hruns hreads hcov₀ heq
  · exact h.page_of_ne hruns hserves hadds ha hcov heq hf

/-- What changes neither the page maps of the application nor the pages of the file. -/
theorem congr (h : MapsFile g r x m e cs byte) (hruns : Runs base r others x)
    (hmem : ∀ f ∈ {r} + x.machine.below false app 3 r, s.mem f = x.machine.mem f)
    (hpages : ∀ addr f, m.Covers addr → x.machine.pageAt r addr = some f → OwnPage x.machine r addr f →
    s.mem f = x.machine.mem f) :
    MapsFile g r { x with machine := s } m e cs byte := by
  have hbelow : s.below false app 3 r = x.machine.below false app 3 r := Machine.below_congr hmem
  refine ⟨h.mem, h.file, h.contents, h.byte_eq, h.size_lt, fun addr f hcov hf => ?_⟩
  have happ := hruns.appAddress_of_covers h.mem hcov
  have hf' : x.machine.pageAt r addr = some f := (pageAt_congr hmem happ).symm.trans hf
  obtain ⟨hown, hbyte⟩ := h.pages addr f hcov hf'
  refine ⟨⟨?_, ?_, fun a ha hpage => ?_⟩, ?_⟩
  · dsimp only
    rw [(owned_congr hmem).1]
    exact hown.owned
  · dsimp only
    rw [hbelow]
    exact hown.notTable
  · exact hown.once a ha ((pageAt_congr hmem ha).symm.trans hpage)
  · dsimp only
    rw [hpages addr f hcov hf' hown]
    exact hbyte

/-- The same mapping, with other requests, files or volumes. -/
theorem of_machine (h : MapsFile g r x m e cs byte) (hmachine : x'.machine = x.machine)
    (hmem : m ∈ x'.memory.fileMaps) (hfile : ∃ fd : FileDescriptor, x'.files m.fd = some (.fat fd) ∧ fd.entry = e)
    (hcontents : FileClusters g x'.volume e cs) (hsize : x'.volume.fileSize e = x.volume.fileSize e)
    (hdata : ∀ c ∈ cs, x'.volume.data c = x.volume.data c) :
    MapsFile g r x' m e cs byte := by
  refine ⟨hmem, hfile, hcontents, fun k => ?_, ?_, fun addr f hcov hf => ?_⟩
  · rw [← h.byte_eq, mappedByte, mappedByte, hsize]
    by_cases hk : k < x.volume.fileSize e
    · rw [if_pos hk, if_pos hk, fileByte_eq h.contents hdata hk]
    · rw [if_neg hk, if_neg hk]
  · rw [hsize]
    exact h.size_lt
  · rw [hmachine] at hf ⊢
    exact h.pages addr f hcov hf

/-- **One step** that leaves the mapped file alone. -/
theorem step {a : AppAction} (hg : g.WellFormed) (h : MapsFile g r x m e cs byte) (hruns : Runs base r others x)
    (hleaves : x.Leaves g m a) (hstep : Step g r others a x x') : MapsFile g r x' m e cs byte := by
  cases hstep with
  | demandPages numPages hr => exact h.of_machine rfl h.mem h.file h.contents rfl fun _ _ => rfl
  | mapFile fd hr =>
    refine h.of_machine rfl ?_ h.file h.contents rfl fun _ _ => rfl
    show m ∈ (x.memory.mapFile fd ((x.files fd).map fun file => UInt64.ofNat (file.size x.volume))).2.fileMaps
    cases x.files fd with
    | none => exact h.mem
    | some file => exact List.mem_append_left _ h.mem
  | fault hr hreads ha hraise hcall => exact h.fault hg hruns hr hreads ha hraise hcall
  | @store _ addr₀ page words hr ha hp _ hw =>
    refine h.congr hruns (fun f hf => ?_) fun addr f hcov hf hown => ?_
    all_goals
      refine Function.update_of_ne ?_ _ _
      rintro rfl
    · exact hruns.accounts.writable_notMem hr ha.part hp hw hf
    · -- The page is at one address only, and that is the file's.
      have hpage := hruns.accounts.translate_pageAt hr ha
      rw [hp] at hpage
      have hsame := hown.once addr₀ ha hpage.symm
      obtain ⟨⟨i, hi⟩, j, hj⟩ := hruns.aligned m h.mem
      obtain ⟨hge, hlt⟩ := hcov
      exact hleaves ⟨by omega, by omega⟩
  | switch cr3 => exact h.congr hruns (fun _ _ => rfl) fun _ _ _ _ _ => rfl
  | other hother happ =>
    obtain ⟨rest, hrest⟩ := Multiset.exists_cons_of_mem hother
    have hacc := hruns.accounts
    rw [hrest, Multiset.cons_swap] at hacc
    have hserves := happ.serves hacc rfl
    have howned : ∀ f ∈ x.machine.owned r, f ∈ (r ::ₘ rest).bind x.machine.owned := by
      intro f hf
      rw [Multiset.cons_bind, Multiset.mem_add]
      exact .inl hf
    exact h.congr hruns (fun f hf => hserves.spares f (.inr (howned f (Multiset.mem_of_le (tables_le_owned _ r) hf))))
      fun addr f _ _ hown => hserves.spares f (.inr (howned f hown.owned))
  | files files =>
    obtain ⟨fd, hfile, rfl⟩ := h.file
    exact h.of_machine rfl h.mem (hleaves fd hfile) h.contents rfl fun _ _ => rfl
  | volume v =>
    obtain ⟨fd, hfile, rfl⟩ := h.file
    obtain ⟨hcontents, hsize, hdata⟩ := hleaves fd hfile cs h.contents
    exact h.of_machine rfl h.mem ⟨fd, hfile, rfl⟩ hcontents hsize hdata

end MapsFile

/-! ### What the application finds -/

/-- At an address the application finds a byte, when it comes there: the page is there and contains it, or the page
fault gives the page, if there is a frame for it. -/
def RunningApp.Finds (g : BPB) (x : RunningApp) (addr : ℕ) (b : UInt8) : Prop :=
  x.machine.loadByte addr = some b ∨ x.machine.loadByte addr = none ∧
    ∀ t errorCode, x.Reads g t → x.machine.Raises (.ofValue addr) errorCode →
      ∃ res s, x.machine.handlePageFault t errorCode addr = some (res, s) ∧
        (res = .error .noEnoughMemory ∨ res = .ok () ∧ s.loadByte addr = some b)

/-- A page fault at a mapped file fails for want of frames only. -/
theorem fault_error {err : Error} (hruns : Runs base r others x) (hm : m ∈ x.memory.fileMaps) (hcov : m.Covers addr)
    (hreads : x.Reads g t) (hraise : x.machine.Raises (.ofValue addr) errorCode)
    (hnone : x.machine.translate (.ofValue addr) = none)
    (hcall : x.machine.handlePageFault t errorCode addr = some (.error err, s)) : err = .noEnoughMemory := by
  unfold Machine.Raises at hraise
  rw [hnone] at hraise
  have hpresent : ¬ errorCode % 2 = 1 := by
    rw [hraise]
    decide
  have hdemand : ¬ (t.dpagingBegin ≤ addr ∧ addr < t.dpagingEnd) := by
    rw [hreads.dpagingEnd]
    have := hruns.room
    have := (hruns.ordered.within m hm).1
    have := hcov.1
    omega
  unfold Machine.handlePageFault at hcall
  rw [if_neg fun hc => hpresent hc.1, if_neg hpresent, if_neg hdemand, hreads.fileMaps] at hcall
  split at hcall
  next m' hm' =>
    unfold Machine.preparePageCache at hcall
    rcases hsetup : x.machine.setupPageMaps (Machine.pageVaddr (.ofValue addr)) 1 true with ⟨err' | num, s₁⟩
    · simp only [hsetup] at hcall
      cases hcall
      exact setupPageMaps_error hsetup
    · simp only [hsetup] at hcall
      obtain ⟨page, -, hcall⟩ := Option.bind_eq_some_iff.mp hcall
      cases hcall
  next hfind =>
    have hout := List.find?_eq_none.mp hfind m hm
    exact absurd (by simpa [FileMapping.Covers] using hcov) hout

/-- **The application finds the bytes of the file**. -/
theorem MapsFile.finds (hg : g.WellFormed) (h : MapsFile g r x m e cs byte) (hruns : Runs base r others x)
    (hr : x.machine.cr3 = r) (hcov : m.Covers addr) : x.Finds g addr (byte (addr - m.vaddrBegin)) := by
  have happ := hruns.appAddress_of_covers h.mem hcov
  rcases hpage : x.machine.pageAt r addr with _ | f
  · refine .inr ⟨by rw [hruns.accounts.loadByte hr happ, hpage]; rfl, fun t errorCode hreads hraise => ?_⟩
    have htranslate : x.machine.translate (.ofValue addr) = none := by
      have hframe := hruns.accounts.translate_pageAt hr happ
      rw [hpage] at hframe
      exact Option.map_eq_none_iff.mp hframe
    obtain ⟨res, s, hcall, hserves, hnew⟩ := hruns.accounts.fault (t := t) hr happ.part hraise
    refine ⟨res, s, hcall, ?_⟩
    cases res with
    | error err => exact .inl (congrArg _ (fault_error hruns h.mem hcov hreads hraise htranslate hcall))
    | ok _ =>
      have h' := h.fault hg hruns hr hreads happ hraise hcall
      have hr' : s.cr3 = r := hserves.cr3.trans hr
      obtain ⟨p, hp, -⟩ := hnew rfl
      have hframe := hserves.accounts.translate_pageAt hr' happ
      rw [hp] at hframe
      refine .inr ⟨rfl, ?_⟩
      rw [hserves.accounts.loadByte hr' happ, ← hframe]
      exact congrArg some (h'.pages addr p.frame hcov hframe.symm).2
  · refine .inl ?_
    rw [hruns.accounts.loadByte hr happ, hpage]
    exact congrArg some (h.pages addr f hcov hpage).2

/-! ### The whole run -/

/-- The image of a file ends before an address. -/
def ImageEnds (s : Machine) (image end' : ℕ) : Prop :=
  ∀ addr, end' ≤ addr → AppAddress addr → s.pageAt image addr = none

variable {s₀ : Machine} {image vaddrBegin end' : ℕ} {vaddrEnd : UInt64} {argc : Except Error ℕ}
    {argv : ℕ → PageMapEntry}
  {files : ℕ → Option OpenFile} {y : RunningApp} {fd : ℕ} {d : FileDescriptor}

theorem ImageEnds.belowStack (h : ImageEnds s image end') (hle : end' ≤ stackBegin) : BelowStack s image := by
  intro k hk hlt
  obtain ⟨addr, happ, -, rfl⟩ := exists_pageNumber (aboveStack_mem_app hk hlt)
  refine h addr ?_ happ
  have hstack : AppAddress stackBegin := by
    rw [AppMemory.stackBegin_eq]
    exact ⟨by decide, by decide⟩
  have hnumber : (LinearAddress4Level.ofValue stackBegin).pageNumber 4 ≤ (LinearAddress4Level.ofValue addr).pageNumber
    4 := hk
  rw [pageNumber_ofValue hstack, pageNumber_ofValue happ] at hnumber
  rw [AppMemory.stackBegin_eq] at hnumber hle
  obtain ⟨hge, -⟩ := happ
  omega

/-- The application has been started. -/
theorem RunningApp.runs_start (hacc : Accounts base s₀ others) (hc : Cached base s₀ image)
    (hends : ImageEnds s₀ image (AppMemory.enter vaddrEnd).dpagingBegin)
    (hge : appBegin ≤ (AppMemory.enter vaddrEnd).dpagingBegin)
    (hle : (AppMemory.enter vaddrEnd).dpagingBegin ≤ stackBegin)
    (henter : s₀.enterApp image argc argv = some (.ok r, s)) :
    Runs base r others ⟨s, .enter vaddrEnd, files, v⟩ := by
  have hb := hends.belowStack hle
  obtain ⟨res, s', hcall, -, hstart⟩ := hacc.enterApp argc argv hc hb
  rw [henter] at hcall
  cases hcall
  obtain ⟨r', hacc', -, hok⟩ := hstart.resolve_left fun ⟨_, err, herr⟩ => by cases herr
  obtain ⟨rfl, hpages⟩ := hok r rfl
  refine ⟨hacc', .enterApp hacc hc hb henter, AppMemory.ordered_enter hge hle, hle,
    fun m hm => ?_, fun addr hfrom hlt => ?_⟩
  · cases hm
  · have hstack := AppMemory.stackBegin_eq
    have hbegin := AppMemory.appBegin_eq
    have hlt' : addr < stackBegin := hlt
    have hfrom' : (AppMemory.enter vaddrEnd).dpagingBegin ≤ addr := hfrom
    have happ : AppAddress addr := ⟨by omega, by omega⟩
    have hstackApp : AppAddress stackBegin := ⟨by rw [hstack]; decide, by rw [hstack]; decide⟩
    have hbelow : (LinearAddress4Level.ofValue addr).pageNumber 4 < Machine.stackFrameAddr.pageNumber 4 := by
      show _ < (LinearAddress4Level.ofValue stackBegin).pageNumber 4
      rw [pageNumber_ofValue happ, pageNumber_ofValue hstackApp]
      obtain ⟨hmin, -⟩ := happ
      omega
    exact (hpages _ (pageNumber_mem_app happ) hbelow).trans (hends addr hfrom' happ)

/-- A step for which there is room. -/
def RunningApp.RoomStep (g : BPB) (r : ℕ) (others : Multiset ℕ) (x x' : RunningApp) : Prop :=
  ∃ a, x.HasRoom a ∧ Step g r others a x x'

/-- A step for which there is room, and that leaves a mapped file alone. -/
def RunningApp.LeavingStep (g : BPB) (r : ℕ) (others : Multiset ℕ) (m : FileMapping) (x x' : RunningApp) : Prop :=
  ∃ a, x.HasRoom a ∧ x.Leaves g m a ∧ Step g r others a x x'

theorem RunningApp.Runs.run (h : Runs base r others x) (hrun : Relation.ReflTransGen (RoomStep g r others) x y) :
    Runs base r others y := by
  induction hrun with
  | refl => exact h
  | tail _ hstep ih =>
    obtain ⟨a, hroom, hstep⟩ := hstep
    exact ih.step hroom hstep

/-- The file that has just been mapped. -/
theorem mapsFile_start (hruns : Runs base r others x) (hfile : x.files fd = some (.fat d))
    (hcs : FileClusters g x.volume d.entry cs) (hroom : x.HasRoom (.mapFile fd))
    (hok : (x.mapFile fd).1 = .ok vaddrBegin) :
    MapsFile g r { x with memory := (x.mapFile fd).2 } ⟨fd, vaddrBegin, x.memory.fileMapEnd⟩ d.entry cs
      (mappedByte g x.volume d.entry cs) := by
  obtain ⟨vaddrBegin', hcall, hdvd, -, hlt, hge⟩ := hruns.mapFile_eq hfile hroom
  rw [hcall] at hok ⊢
  cases hok
  refine ⟨List.mem_append_right _ (List.mem_singleton_self _), ⟨d, hfile, rfl⟩, hcs,
    fun _ => rfl, hlt, fun addr f hcov hf => ?_⟩
  obtain ⟨hfrom, hto⟩ := hcov
  cases (hruns.absent addr (hge.trans hfrom) hto).symm.trans hf

theorem pageBelow_entryTo {mem : ℕ → ℕ → PageMapEntry} {n frame : ℕ} (hlt : frame < 2 ^ 40) :
    pageBelow mem (n + 1) (entryTo frame true) k = pageBelow mem n (mem frame (k / 512 ^ n)) (k % 512 ^ n) := by
  have hptr : (entryTo frame true).pointer = frame := Nat.mod_eq_of_lt hlt
  exact (if_pos rfl).trans (by rw [hptr])

/-- A page map with one entry has pages below this entry only. -/
theorem pageBelow_one {mem : ℕ → ℕ → PageMapEntry} {n i j : ℕ} {entry : PageMapEntry}
    (h : i = j → pageBelow mem n entry k = none) : pageBelow mem n (if i = j then entry else .zero) k = none := by
  split
  next hij => exact h hij
  next => cases n <;> rfl

/-- The page of the file is the only one. -/
theorem oneCached_ends : ImageEnds oneCached 2 (AppMemory.enter 0xffff800000001000).dpagingBegin := by
  intro addr hge happ
  have hbegin : 0xffff800000001000 ≤ addr := hge
  have h2 : ∀ i, oneCached.mem 2 i = if i = 256 then entryTo 3 true else .zero := fun i => by simp [oneCached]
  have h3 : ∀ i, oneCached.mem 3 i = if i = 0 then entryTo 4 true else .zero := fun i => by simp [oneCached]
  have h4 : ∀ i, oneCached.mem 4 i = if i = 0 then entryTo 5 true else .zero := fun i => by simp [oneCached]
  have h5 : ∀ i, oneCached.mem 5 i = if i = 0 then entryTo 6 false else .zero := fun i => by simp [oneCached]
  rw [Machine.pageAt, pageNumber_ofValue happ, pageIn, h2]
  refine pageBelow_one fun hi => ?_
  rw [pageBelow_entryTo (by decide), h3]
  refine pageBelow_one fun hi₃ => ?_
  rw [pageBelow_entryTo (by decide), h4]
  refine pageBelow_one fun hi₄ => ?_
  rw [pageBelow_entryTo (by decide), h5]
  refine pageBelow_one fun hi₅ => ?_
  obtain ⟨-, hlt⟩ := happ
  omega

/-- A small volume with the file `abc`. -/
def abcFile : Volume where
  fat := fun cluster => if cluster = 2 ∨ cluster = 3 then kEndOfClusterchain else 0
  data := fun cluster o =>
    if cluster = 2 then (if o = 26 then 3 else if o = 28 then 3 else 0) else if cluster =
      3 then UInt8.ofNat (97 + o) else 0

theorem contents_abcFile : FileClusters smallBPB abcFile ⟨2, 0⟩ [3] where
  chain := ⟨.last rfl, by decide⟩
  size_le := by decide
  inData := by decide

/-- An application with the file open. -/
def abcApp (s : Machine) : RunningApp where
  machine := s
  memory := .enter 0xffff800000001000
  files := fun fd => if fd = 3 then some (.fat { entry := ⟨2, 0⟩ }) else none
  volume := abcFile

end DuvuvurKernel
