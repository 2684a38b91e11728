import DuvuvurKernel.Memory.Usable
import DuvuvurKernel.Paging.PageFault

/-!
# The identity map

`SetupIdentityPageTable` maps `kPageDirectoryCount` gigabytes, and the frame allocator hands
out frames of up to 128 GiB, which the kernel then reaches at their physical addresses.

## The model

The static arrays are frames that are apart, and zero at the start. The translation is the
processor's, which stops at a page of 2 MiB.

**Result** (`addressable_iff`): every frame that `Allocate` can return is mapped exactly if no
usable frame lies above the 64 GiB that are mapped, other than those of the heap.
-/

namespace DuvuvurKernel

/-- `kPageDirectoryCount`. -/
def kPageDirectoryCount : ℕ := 64

/-- `kPageSize4K`. -/
def kPageSize4K : ℕ := 4096

/-- `kPageSize2M`. -/
def kPageSize2M : ℕ := 512 * kPageSize4K

/-- `kPageSize1G`. -/
def kPageSize1G : ℕ := 512 * kPageSize2M

/-- The frames of the static arrays of `paging.cpp`. -/
structure StaticTables where
  /-- `pml4_table`. -/
  pml4Table : ℕ
  /-- `pdp_table`. -/
  pdpTable : ℕ
  /-- `page_directory`. -/
  pageDirectory : ℕ → ℕ
  pdp_ne : pdpTable ≠ pml4Table
  directory_ne : ∀ i < kPageDirectoryCount, pageDirectory i ≠ pml4Table ∧ pageDirectory i ≠ pdpTable
  directory_inj : ∀ i < kPageDirectoryCount, ∀ j < kPageDirectoryCount, pageDirectory i = pageDirectory j → i = j
  /-- Physical addresses have 52 bits. -/
  pdp_lt : pdpTable < 2 ^ 40
  directory_lt : ∀ i < kPageDirectoryCount, pageDirectory i < 2 ^ 40

namespace Machine

variable (T : StaticTables)

/-- The inner loop of `SetupIdentityPageTable`, up to an index. -/
def setupDirectory (s : Machine) (iPdpt : ℕ) : ℕ → Machine
  | 0 => s
  | iPd + 1 => (s.setupDirectory iPdpt iPd).setEntry (T.pageDirectory iPdpt) iPd
    (.ofData (iPdpt * kPageSize1G + iPd * kPageSize2M ||| 0x083))

/-- The outer loop, up to an index. -/
def setupDirectories (s : Machine) : ℕ → Machine
  | 0 => s
  | iPdpt + 1 => ((s.setupDirectories iPdpt).setEntry T.pdpTable iPdpt
    (.ofData (T.pageDirectory iPdpt * kBytesPerFrame ||| 0x003))).setupDirectory T iPdpt 512

/-- `SetupIdentityPageTable`. -/
def setupIdentityPageTable (s : Machine) : Machine :=
  { (s.setEntry T.pml4Table 0 (.ofData (T.pdpTable * kBytesPerFrame ||| 0x003))).setupDirectories T
      kPageDirectoryCount with
    cr3 := T.pml4Table }

variable {T} {s : Machine}

/-! ### The entries -/

theorem ofData_table {frame : ℕ} (h : frame < 2 ^ 40) :
    (PageMapEntry.ofData (frame * kBytesPerFrame ||| 0x003)).present = true ∧
      (PageMapEntry.ofData (frame * kBytesPerFrame ||| 0x003)).hugePage = false ∧
      (PageMapEntry.ofData (frame * kBytesPerFrame ||| 0x003)).pointer = frame := by
  have hor : frame * kBytesPerFrame ||| 0x003 = 2 ^ 12 * frame + 3 := by
    rw [Nat.two_pow_add_eq_or_of_lt (by decide), Nat.mul_comm]
    rfl
  rw [hor]
  refine ⟨?_, ?_, ?_⟩
  · simp only [PageMapEntry.ofData, decide_eq_true_eq]
    omega
  · simp only [PageMapEntry.ofData, decide_eq_false_iff_not]
    omega
  · simp only [PageMapEntry.ofData, PageMapEntry.pointer, Fin.ofNat]
    omega

theorem ofData_page {iPdpt iPd : ℕ} (h : iPdpt < kPageDirectoryCount) (h' : iPd < 512) :
    (PageMapEntry.ofData (iPdpt * kPageSize1G + iPd * kPageSize2M ||| 0x083)).present = true ∧
      (PageMapEntry.ofData (iPdpt * kPageSize1G + iPd * kPageSize2M ||| 0x083)).hugePage = true ∧
      (PageMapEntry.ofData (iPdpt * kPageSize1G + iPd * kPageSize2M ||| 0x083)).pointer =
          2 ^ 18 * iPdpt + 2 ^ 9 * iPd := by
  unfold kPageDirectoryCount at h
  have hor : iPdpt * kPageSize1G + iPd * kPageSize2M ||| 0x083 = 2 ^ 12 * (2 ^ 18 * iPdpt + 2 ^ 9 * iPd) + 0x83 := by
    rw [Nat.two_pow_add_eq_or_of_lt (by decide)]
    congr 1
    unfold kPageSize1G kPageSize2M kPageSize4K
    omega
  rw [hor]
  refine ⟨?_, ?_, ?_⟩
  · simp only [PageMapEntry.ofData, decide_eq_true_eq]
    omega
  · simp only [PageMapEntry.ofData, decide_eq_true_eq]
    omega
  · simp only [PageMapEntry.ofData, PageMapEntry.pointer, Fin.ofNat]
    omega

theorem setEntry_mem_of_ne {f pageMap i : ℕ} {e : PageMapEntry} (h : f ≠ pageMap) :
    (s.setEntry pageMap i e).mem f = s.mem f :=
  Function.update_of_ne h ..

theorem setEntry_mem_same {pageMap i k : ℕ} {e : PageMapEntry} :
    (s.setEntry pageMap i e).mem pageMap k = if k = i then e else s.mem pageMap k := by
  simp only [setEntry, Function.update_self, Function.update_apply]

/-- A page directory. -/
theorem setupDirectory_spec (iPdpt n : ℕ) :
    (∀ f, f ≠ T.pageDirectory iPdpt → (s.setupDirectory T iPdpt n).mem f = s.mem f) ∧
      ∀ i < n, (s.setupDirectory T iPdpt n).mem (T.pageDirectory iPdpt) i =
        .ofData (iPdpt * kPageSize1G + i * kPageSize2M ||| 0x083) := by
  induction n with
  | zero => exact ⟨fun _ _ => rfl, fun i hi => absurd hi (Nat.not_lt_zero i)⟩
  | succ n ih =>
    refine ⟨fun f hf => ?_, fun i hi => ?_⟩
    · rw [setupDirectory, setEntry_mem_of_ne hf, ih.1 f hf]
    · rw [setupDirectory, setEntry_mem_same]
      split
      next heq => rw [heq]
      next hne => exact ih.2 i (by omega)

/-- The page directories up to an index, and what they hang on. -/
theorem setupDirectories_spec {n : ℕ} (hn : n ≤ kPageDirectoryCount) :
    (s.setupDirectories T n).mem T.pml4Table = s.mem T.pml4Table ∧
      (∀ i, (s.setupDirectories T n).mem T.pdpTable i =
        if i < n then .ofData (T.pageDirectory i * kBytesPerFrame ||| 0x003) else s.mem T.pdpTable i) ∧
      ∀ i < n, ∀ k < 512, (s.setupDirectories T n).mem (T.pageDirectory i) k =
        .ofData (i * kPageSize1G + k * kPageSize2M ||| 0x083) := by
  induction n with
  | zero => exact ⟨rfl, fun i => rfl, fun i hi => absurd hi (Nat.not_lt_zero i)⟩
  | succ n ih =>
    obtain ⟨hpml4, hpdp, hdirs⟩ := ih (Nat.le_of_succ_le hn)
    obtain ⟨hother, hdir⟩ := setupDirectory_spec (T := T)
      (s := (s.setupDirectories T n).setEntry T.pdpTable n (.ofData (T.pageDirectory n * kBytesPerFrame ||| 0x003))) n
        512
    refine ⟨?_, fun i => ?_, fun i hi k hk => ?_⟩
    · rw [setupDirectories, hother _ (T.directory_ne n hn).1.symm, setEntry_mem_of_ne T.pdp_ne.symm, hpml4]
    · rw [setupDirectories, hother _ (T.directory_ne n hn).2.symm, setEntry_mem_same, hpdp]
      rcases Nat.lt_trichotomy i n with hlt | rfl | hgt
      · rw [if_neg (Nat.ne_of_lt hlt), if_pos hlt, if_pos (Nat.lt_succ_of_lt hlt)]
      · rw [if_pos rfl, if_pos (Nat.lt_succ_self i)]
      · rw [if_neg (Nat.ne_of_gt hgt), if_neg (Nat.not_lt_of_lt hgt), if_neg (by omega)]
    · rw [setupDirectories]
      rcases Nat.lt_or_eq_of_le (Nat.le_of_lt_succ hi) with hlt | rfl
      · have hne : T.pageDirectory i ≠ T.pageDirectory n := fun he =>
          absurd (T.directory_inj i (by omega) n hn he) (Nat.ne_of_lt hlt)
        rw [hother _ hne, setEntry_mem_of_ne (T.directory_ne i (by omega)).2, hdirs i hlt k hk]
      · exact hdir k hk

/-- The frame is reached at its physical address. -/
def Mapped (s : Machine) (frame : ℕ) : Prop :=
  ∀ offset < kBytesPerFrame, (s.translate (.ofValue (frame * kBytesPerFrame + offset))).map Page.frame = some frame

/-- The parts of a physical address. -/
theorem parts_physical {frame offset : ℕ} (hframe : frame < 2 ^ 27) (hoffset : offset < kBytesPerFrame) :
    (LinearAddress4Level.ofValue (frame * kBytesPerFrame + offset)).part 4 = 0 ∧
      (LinearAddress4Level.ofValue (frame * kBytesPerFrame + offset)).pageNumber 3 = frame := by
  unfold kBytesPerFrame at *
  constructor
  · simp only [LinearAddress4Level.part, LinearAddress4Level.ofValue, Fin.ofNat]
    omega
  · simp only [LinearAddress4Level.pageNumber, LinearAddress4Level.part, LinearAddress4Level.ofValue, Fin.ofNat]
    omega

/-- **The frames that are mapped** are those of `kPageDirectoryCount` gigabytes. -/
theorem mapped_iff (hzero : ∀ i, s.mem T.pdpTable i = .zero) {frame : ℕ} (hframe : frame < 2 ^ 27) :
    (s.setupIdentityPageTable T).Mapped frame ↔ frame < kPageDirectoryCount * 2 ^ 18 := by
  obtain ⟨hpml4, hpdp, hdirs⟩ := setupDirectories_spec (T := T)
    (s := s.setEntry T.pml4Table 0 (.ofData (T.pdpTable * kBytesPerFrame ||| 0x003))) (Nat.le_refl kPageDirectoryCount)
  obtain ⟨hpresent, hhuge, hpointer⟩ := ofData_table T.pdp_lt
  have hroot : (s.setupIdentityPageTable T).mem T.pml4Table 0 = .ofData (T.pdpTable * kBytesPerFrame ||| 0x003) := by
    rw [setupIdentityPageTable]
    dsimp only
    rw [hpml4, setEntry_mem]
  have hwalk : ∀ offset < kBytesPerFrame,
    (s.setupIdentityPageTable T).translate (.ofValue (frame * kBytesPerFrame + offset)) =
      (walk (s.setupIdentityPageTable T).mem 2 ((s.setupIdentityPageTable T).mem T.pdpTable (frame / 512 ^ 2))
        (frame % 512 ^ 2)).map
        fun p => ⟨p.frame, (PageMapEntry.ofData (T.pdpTable * kBytesPerFrame ||| 0x003)).writable && p.writable,
          (PageMapEntry.ofData (T.pdpTable * kBytesPerFrame ||| 0x003)).user && p.user⟩ := by
    intro offset hoffset
    obtain ⟨hpart, hnumber⟩ := parts_physical hframe hoffset
    have hcr3 : (s.setupIdentityPageTable T).cr3 = T.pml4Table := rfl
    rw [translate, hpart, hnumber, hcr3, hroot, walk, hpresent, hhuge, hpointer]
    rfl
  have hentry : (s.setupIdentityPageTable T).mem T.pdpTable (frame / 512 ^ 2) =
      if frame / 512 ^ 2 < kPageDirectoryCount
        then .ofData (T.pageDirectory (frame / 512 ^ 2) * kBytesPerFrame ||| 0x003)
      else .zero := by
    rw [setupIdentityPageTable]
    dsimp only
    rw [hpdp, setEntry_mem_of_ne T.pdp_ne, hzero]
  have hiff : frame / 512 ^ 2 < kPageDirectoryCount ↔ frame < kPageDirectoryCount * 2 ^ 18 := by
    unfold kPageDirectoryCount
    omega
  rw [hentry] at hwalk
  constructor
  · intro hmapped
    by_contra hout
    have hnone := hmapped 0 (by decide)
    rw [hwalk 0 (by decide), if_neg (hiff.not.mpr hout)] at hnone
    cases hnone
  · intro hin offset hoffset
    have hdir := hiff.mpr hin
    obtain ⟨hpresent', hhuge', hpointer'⟩ := ofData_table (T.directory_lt _ hdir)
    have hpage : (s.setupIdentityPageTable T).mem (T.pageDirectory (frame / 512 ^ 2)) (frame % 512 ^ 2 / 512 ^ 1) =
        .ofData (frame / 512 ^ 2 * kPageSize1G + frame % 512 ^ 2 / 512 ^ 1 * kPageSize2M ||| 0x083) := by
      rw [setupIdentityPageTable]
      dsimp only
      rw [hdirs _ hdir _ (by omega)]
    obtain ⟨hpresent₂, hhuge₂, hpointer₂⟩ := ofData_page hdir (show frame % 512 ^ 2 / 512 ^ 1 < 512 by omega)
    rw [hwalk offset hoffset, if_pos hdir, walk, hpresent', hhuge', hpointer', hpage, walk, hpresent₂, hhuge₂,
      hpointer₂]
    simp only [not_true_eq_false, if_false, Bool.false_eq_true, if_true, Option.map_some, Option.some.injEq]
    omega

end Machine

namespace AllocMap

open Machine

variable {T : StaticTables} {s : Machine} {map : List MemoryDescriptor}

/-- Every frame that `Allocate` can return after `InitializeMemoryManager` is mapped. -/
def AllMapped (T : StaticTables) (s : Machine) (map : List MemoryDescriptor) : Prop :=
  ∀ heapStart m, initializeMemoryManager map = some (.ok heapStart, m) → ∀ returned m₁, InUse m returned m₁ →
    ∀ n start m₂, m₁.allocate n = some (.ok start, m₂) → ∀ g, start ≤ g → g < start + n →
      (s.setupIdentityPageTable T).Mapped g

/-- A frame of the bitmap is below the end of the first entry of `pml4_table`. -/
theorem mapped_iff_low (hzero : ∀ i, s.mem T.pdpTable i = .zero) {m : AllocMap} (hrange : m.rangeEnd ≤ kFrameCount)
    {g : ℕ} (hg : m.Clear g) : (s.setupIdentityPageTable T).Mapped g ↔ g < kPageDirectoryCount * 2 ^ 18 :=
  mapped_iff hzero (Nat.lt_of_lt_of_le hg.1.2 (Nat.le_trans hrange (by decide)))

/-- A usable frame that is not mapped, and not of the heap, can be returned. -/
theorem not_allMapped (hzero : ∀ i, s.mem T.pdpTable i = .zero) (hmap : LowMap map) {start g : ℕ}
    (hstart : HeapStart map start) (hge : kPageDirectoryCount * 2 ^ 18 ≤ g) (husable : Usable map g)
    (hheap : ¬ (start ≤ g ∧ g < start + kHeapFrames)) :
    ¬ AllMapped T s map := by
  intro hall
  obtain ⟨hheapStart, hspec⟩ := initialize_spec hmap start
  obtain ⟨m, hinit⟩ := hheapStart.mp hstart
  obtain ⟨hrange, hclear⟩ := hspec m hinit
  have hg : m.Clear g := (hclear g).mpr ⟨husable, hheap⟩
  obtain ⟨returned, m₁, m₂, huse, hcall⟩ := exists_returned hrange hg
  have hmapped := hall start m hinit returned m₁ huse 1 g m₂ hcall g (Nat.le_refl g) (Nat.lt_succ_self g)
  exact absurd ((mapped_iff_low hzero hrange hg).mp hmapped) (Nat.not_lt.mpr hge)

/-- **Every frame that `Allocate` can return is mapped** exactly if every usable frame above the gigabytes that are
mapped is one of the heap. -/
theorem addressable_iff (hzero : ∀ i, s.mem T.pdpTable i = .zero) (hmap : LowMap map) : AllMapped T s map ↔
    ∀ start, HeapStart map start → ∀ g, kPageDirectoryCount * 2 ^ 18 ≤ g → Usable map g →
      start ≤ g ∧ g < start + kHeapFrames := by
  constructor
  · intro hall start hstart g hge husable
    by_contra hheap
    exact not_allMapped hzero hmap hstart hge husable hheap hall
  · intro hlow start m hinit returned m₁ huse n first m₂ hcall g hg hlt
    obtain ⟨hheapStart, hspec⟩ := initialize_spec hmap start
    obtain ⟨hrange, hclear⟩ := hspec m hinit
    obtain ⟨-, hreturned, -⟩ := (huse.allocate hcall).clear hrange
    have hclearg : m.Clear g := hreturned g (.inr ⟨hg, hlt⟩)
    obtain ⟨husable, hheap⟩ := (hclear g).mp hclearg
    refine (mapped_iff_low hzero hrange hclearg).mpr (Nat.lt_of_not_le fun hge => hheap ?_)
    exact hlow start (hheapStart.mpr ⟨m, hinit⟩) g hge husable

/-- The static arrays in a row. -/
def staticTables : StaticTables where
  pml4Table := 1
  pdpTable := 2
  pageDirectory i := 3 + i
  pdp_ne := by decide
  directory_ne i _ := by omega
  directory_inj i _ j _ h := by omega
  pdp_lt := by decide
  directory_lt i hi := by
    unfold kPageDirectoryCount at hi
    omega

/-- A memory that is zero. -/
def zeroed : Machine where
  mem _ _ := .zero
  memoryManager := { getBit := fun _ => false, rangeBegin := 1, rangeEnd := 1, rangeEnd_le := by decide }
  cr3 := 0

/-- 256 MiB of memory. -/
theorem addressable_iff_low : AllMapped staticTables zeroed [⟨kEfiConventionalMemory, 0, 0x10000⟩] := by
  have hmap : LowMap [⟨kEfiConventionalMemory, 0, 0x10000⟩] :=
    ⟨by decide, by decide, by decide, List.pairwise_singleton _ _⟩
  refine (addressable_iff (fun _ => rfl) hmap).mpr fun start _ g hge husable => ?_
  have hend : lastAvailableEnd [⟨kEfiConventionalMemory, 0, 0x10000⟩] / kBytesPerFrame = 0x10000 := by decide
  have hlt := husable.1.2
  rw [hend] at hlt
  unfold kPageDirectoryCount at hge
  omega

/-- 128 MiB of memory for the heap, and memory behind 64 GiB: the first frame that `Allocate` returns is not mapped. -/
theorem frame_not_mapped : ¬ AllMapped staticTables zeroed
    [⟨kEfiConventionalMemory, 0x1000, 0x8000⟩, ⟨kEfiConventionalMemory, 0x1000000000, 0x100000⟩] := by
  have hmap : LowMap [⟨kEfiConventionalMemory, 0x1000, 0x8000⟩, ⟨kEfiConventionalMemory, 0x1000000000, 0x100000⟩] := by
    refine ⟨by decide, by decide, by decide, ?_⟩
    simp [MemoryDescriptor.Apart, kUEFIPageSize]
  have husable : ∀ g, 1 ≤ g ∧ g ≤ 0x8000 ∨ g = 0x1000000 →
      Usable [⟨kEfiConventionalMemory, 0x1000, 0x8000⟩, ⟨kEfiConventionalMemory, 0x1000000000, 0x100000⟩] g := by
    intro g hg
    refine ⟨⟨by omega, ?_⟩, fun pre d post hsplit hmarks => ?_⟩
    · have hend : lastAvailableEnd [⟨kEfiConventionalMemory, 0x1000, 0x8000⟩,
          ⟨kEfiConventionalMemory, 0x1000000000, 0x100000⟩] / kBytesPerFrame = 0x1100000 := by decide
      omega
    · rcases pre with _ | ⟨d₁, _ | ⟨d₂, pre⟩⟩
      · cases hsplit
        rcases hmarks with ⟨-, hlt⟩ | ⟨hunavailable, -⟩
        · unfold kBytesPerFrame at hlt
          dsimp only at hlt
          omega
        · cases hunavailable
      · cases hsplit
        rcases hmarks with ⟨hge, hlt⟩ | ⟨hunavailable, -⟩
        · have hend : lastAvailableEnd [⟨kEfiConventionalMemory, 0x1000, 0x8000⟩] = 0x8001000 := by decide
          rw [hend] at hge
          unfold kBytesPerFrame at hge hlt
          dsimp only at hlt
          omega
        · cases hunavailable
      · simp at hsplit
  have hstart : HeapStart [⟨kEfiConventionalMemory, 0x1000, 0x8000⟩, ⟨kEfiConventionalMemory, 0x1000000000, 0x100000⟩]
      1 := by
    refine ⟨⟨Nat.le_refl 1, fun g hg hlt => husable g (.inl ⟨hg, ?_⟩)⟩, fun start hfits => hfits.1⟩
    unfold kHeapFrames at hlt
    omega
  exact not_allMapped (fun _ => rfl) hmap hstart (g := 0x1000000) (by decide) (husable _ (.inr rfl)) (by decide)

end AllocMap

end DuvuvurKernel
