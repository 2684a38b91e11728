import DuvuvurKernel.Memory.AllocMap
import Mathlib.Data.List.Pairwise

/-!
# The memory map at boot

`InitializeMemoryManager` goes through the memory map of the firmware. It marks the
descriptors that are not available, and the gap from the end of the last available
descriptor so far (`available_end`) to the start of the next descriptor; the range ends
where the last available descriptor ends. Addresses are unsigned 64-bit numbers.

The gaps are measured from the last available descriptor only. Whatever the order of the
descriptors, every frame below `available_end` was either passed by a gap or lies in an
available descriptor (`boot_spec`). Nothing compares the addresses with the size of the
bitmap: `contained_iff` says for which maps it is never left.
-/

namespace DuvuvurKernel

/-- `MemoryDescriptor`. -/
structure MemoryDescriptor where
  /-- The number of a `MemoryType`. -/
  type : UInt32
  physicalStart : ℕ
  numberOfPages : ℕ
  deriving DecidableEq

/-- `kBytesPerFrame`. -/
def kBytesPerFrame : ℕ := 4096

/-- `kUEFIPageSize`. -/
def kUEFIPageSize : ℕ := 4096

/-- `MemoryType::kEfiBootServicesCode`. -/
def kEfiBootServicesCode : UInt32 := 3

/-- `MemoryType::kEfiBootServicesData`. -/
def kEfiBootServicesData : UInt32 := 4

/-- `MemoryType::kEfiConventionalMemory`. -/
def kEfiConventionalMemory : UInt32 := 7

/-- `IsAvailable`. -/
def isAvailable (type : UInt32) : Bool :=
  type == kEfiBootServicesCode || type == kEfiBootServicesData || type == kEfiConventionalMemory

namespace MemoryDescriptor

/-- The size in bytes, `number_of_pages * kUEFIPageSize`. -/
def bytes (desc : MemoryDescriptor) : ℕ := desc.numberOfPages * kUEFIPageSize % 2 ^ 64

/-- `physical_end`. -/
def physicalEnd (desc : MemoryDescriptor) : ℕ := (desc.physicalStart + desc.bytes) % 2 ^ 64

/-- The frame belongs to the descriptor. -/
def Contains (desc : MemoryDescriptor) (frame : ℕ) : Prop :=
  desc.physicalStart ≤ frame * kBytesPerFrame ∧
    frame * kBytesPerFrame < desc.physicalStart + desc.numberOfPages * kUEFIPageSize

/-- The descriptors do not overlap. -/
def Apart (d d' : MemoryDescriptor) : Prop :=
  d.physicalStart + d.numberOfPages * kUEFIPageSize ≤ d'.physicalStart ∨
    d'.physicalStart + d'.numberOfPages * kUEFIPageSize ≤ d.physicalStart

instance : Std.Symm Apart where
  symm _ _ h := Or.symm h

end MemoryDescriptor

namespace AllocMap

/-- The body of the loop of `InitializeMemoryManager`: the bitmap and `available_end`. -/
def markDescriptor (m : AllocMap) (availableEnd : ℕ) (desc : MemoryDescriptor) : Option (AllocMap × ℕ) :=
  (if availableEnd < desc.physicalStart then
    m.markAllocated (availableEnd / kBytesPerFrame) ((desc.physicalStart - availableEnd) / kBytesPerFrame)
  else some m).bind fun m =>
    if isAvailable desc.type then some (m, desc.physicalEnd)
    else (m.markAllocated (desc.physicalStart / kBytesPerFrame) (desc.bytes / kBytesPerFrame)).map
      fun m => (m, availableEnd)

/-- The loop of `InitializeMemoryManager`. -/
def markDescriptors (m : AllocMap) (availableEnd : ℕ) : List MemoryDescriptor → Option (AllocMap × ℕ)
  | [] => some (m, availableEnd)
  | desc :: map => (m.markDescriptor availableEnd desc).bind fun (m, availableEnd) => m.markDescriptors availableEnd map

/-- `InitializeMemoryManager` up to the call of `SetMemoryRange`. -/
def boot (map : List MemoryDescriptor) : Option AllocMap :=
  (initial.markDescriptors 0 map).map fun (m, availableEnd) => m.setMemoryRange 1 (availableEnd / kBytesPerFrame)

/-- `kHeapFrames`. -/
def kHeapFrames : ℕ := 64 * 512

/-- `InitializeMemoryManager`, with the call of `Allocate` by `InitializeHeap`. If that fails, the kernel
exits. -/
def initializeMemoryManager (map : List MemoryDescriptor) : Option (Except Error ℕ × AllocMap) :=
  (boot map).bind fun m => m.allocate kHeapFrames

end AllocMap

/-! ### Maps below 128 GiB -/

/-- A memory map as the firmware gives it, below 128 GiB: non-empty descriptors of whole pages, which do not
overlap. -/
structure LowMap (map : List MemoryDescriptor) : Prop where
  aligned : ∀ d ∈ map, kUEFIPageSize ∣ d.physicalStart
  nonempty : ∀ d ∈ map, 0 < d.numberOfPages
  low : ∀ d ∈ map, d.physicalStart + d.numberOfPages * kUEFIPageSize ≤ kFrameCount * kBytesPerFrame
  apart : map.Pairwise MemoryDescriptor.Apart

namespace AllocMap

variable {m : AllocMap} {availableEnd : ℕ} {d : MemoryDescriptor} {map pre rest : List MemoryDescriptor}

/-- The end of a descriptor below 128 GiB. -/
theorem physicalEnd_of_low (hlow : d.physicalStart + d.numberOfPages * kUEFIPageSize ≤ kFrameCount * kBytesPerFrame) :
    d.bytes = d.numberOfPages * kUEFIPageSize ∧ d.physicalEnd = d.physicalStart + d.numberOfPages * kUEFIPageSize := by
  have hcap : kFrameCount * kBytesPerFrame < 2 ^ 64 := by decide
  have hbytes : d.bytes = d.numberOfPages * kUEFIPageSize := Nat.mod_eq_of_lt (by omega)
  exact ⟨hbytes, by rw [MemoryDescriptor.physicalEnd, hbytes, Nat.mod_eq_of_lt (by omega)]⟩

/-- Marking a block within the bitmap. -/
theorem markAllocated_bit (m : AllocMap) {start n : ℕ} (h : start + n ≤ kFrameCount) :
    ∃ m', m.markAllocated start n = some m' ∧
    ∀ g, m'.bit g = true ↔ m.bit g = true ∨ start ≤ g ∧ g < start + n := by
  obtain ⟨m', h1, h2, -⟩ := m.setBits_of_le true h
  refine ⟨m', h1, fun g => ?_⟩
  rw [h2]
  split
  · next hin => simp [hin]
  · next hout => simp [hout]

/-- The gap and, if it is not available, the descriptor are marked. -/
theorem markDescriptor_low (he : kUEFIPageSize ∣ availableEnd) (hstart : kUEFIPageSize ∣ d.physicalStart)
    (hlow : d.physicalStart + d.numberOfPages * kUEFIPageSize ≤ kFrameCount * kBytesPerFrame) :
    ∃ m', m.markDescriptor availableEnd d = some (m', if isAvailable d.type then d.physicalEnd else availableEnd) ∧
      ∀ g, m'.bit g = true ↔ m.bit g = true ∨
        (availableEnd ≤ g * kBytesPerFrame ∧ g * kBytesPerFrame < d.physicalStart) ∨
        (isAvailable d.type = false ∧ d.Contains g) := by
  obtain ⟨hbytes, hend⟩ := physicalEnd_of_low hlow
  obtain ⟨e, rfl⟩ := he
  obtain ⟨p, hp⟩ := hstart
  unfold MemoryDescriptor.Contains
  unfold kUEFIPageSize kBytesPerFrame at *
  -- the gap
  have hgap : ∃ m₁, (if 4096 * e < d.physicalStart then
      m.markAllocated (4096 * e / 4096) ((d.physicalStart - 4096 * e) / 4096) else some m) = some m₁ ∧
      ∀ g, m₁.bit g = true ↔ m.bit g = true ∨ (4096 * e ≤ g * 4096 ∧ g * 4096 < d.physicalStart) := by
    by_cases hlt : 4096 * e < d.physicalStart
    · rw [if_pos hlt]
      obtain ⟨m₁, h1, h2⟩ := m.markAllocated_bit
        (show 4096 * e / 4096 + (d.physicalStart - 4096 * e) / 4096 ≤ kFrameCount by omega)
      refine ⟨m₁, h1, fun g => ?_⟩
      have hiff : (4096 * e / 4096 ≤ g ∧ g < 4096 * e / 4096 + (d.physicalStart - 4096 * e) / 4096) ↔
          (4096 * e ≤ g * 4096 ∧ g * 4096 < d.physicalStart) := by omega
      rw [h2, hiff]
    · rw [if_neg hlt]
      refine ⟨m, rfl, fun g => ⟨Or.inl, fun h => h.resolve_right fun hin => by omega⟩⟩
  obtain ⟨m₁, h1, h2⟩ := hgap
  unfold markDescriptor kBytesPerFrame
  rw [h1, Option.bind_some]
  cases hav : isAvailable d.type with
  | true =>
    refine ⟨m₁, rfl, fun g => ?_⟩
    rw [h2]
    simp
  | false =>
    obtain ⟨m₂, h3, h4⟩ := m₁.markAllocated_bit
      (show d.physicalStart / 4096 + d.bytes / 4096 ≤ kFrameCount by omega)
    refine ⟨m₂, by rw [h3]; rfl, fun g => ?_⟩
    have hiff : (d.physicalStart / 4096 ≤ g ∧ g < d.physicalStart / 4096 + d.bytes / 4096) ↔
        (d.physicalStart ≤ g * 4096 ∧ g * 4096 < d.physicalStart + d.numberOfPages * 4096) := by omega
    rw [h4, h2, hiff, or_assoc]
    simp

/-- Where the loop is after the descriptors `pre` of a map. -/
structure Progress (map pre : List MemoryDescriptor) (m : AllocMap) (availableEnd : ℕ) : Prop where
  aligned : kUEFIPageSize ∣ availableEnd
  covered : ∀ g, g * kBytesPerFrame < availableEnd → m.bit g = false →
    ∃ d ∈ pre, isAvailable d.type = true ∧ d.Contains g
  clear : map.Pairwise (fun d d' => d.physicalStart ≤ d'.physicalStart) →
    ∀ d ∈ map, isAvailable d.type = true → ∀ g, d.Contains g → m.bit g = false
  inside : map.Pairwise (fun d d' => d.physicalStart ≤ d'.physicalStart) →
    ∀ d ∈ pre, isAvailable d.type = true → d.physicalEnd ≤ availableEnd

theorem progress_initial (hmap : LowMap map) : Progress map [] initial 0 where
  aligned := Nat.dvd_zero _
  covered := fun g hg => absurd hg (Nat.not_lt_zero _)
  clear := fun _ d hd _ g hg => by
    have hlow := hmap.low d hd
    have hfree : ¬ initial.bit g = true := by
      rw [initial_bit, Nat.not_le]
      exact Nat.lt_of_mul_lt_mul_right (Nat.lt_of_lt_of_le hg.2 hlow)
    exact Bool.eq_false_iff.mpr hfree
  inside := fun _ d hd => by cases hd

theorem dvd_physicalEnd (hmap : LowMap map) (hd : d ∈ map) : kUEFIPageSize ∣ d.physicalEnd := by
  rw [(physicalEnd_of_low (hmap.low d hd)).2]
  exact Nat.dvd_add (hmap.aligned d hd) (Nat.dvd_mul_left _ _)

/-- One descriptor more. -/
theorem Progress.step (hmap : LowMap map) (hsplit : map = pre ++ d :: rest) (h : Progress map pre m availableEnd) :
    ∃ m' e', m.markDescriptor availableEnd d = some (m', e') ∧ Progress map (pre ++ [d]) m' e' := by
  have hd : d ∈ map := by
    rw [hsplit]
    exact List.mem_append_right _ List.mem_cons_self
  obtain ⟨m', h1, h2⟩ := markDescriptor_low (m := m) h.aligned (hmap.aligned d hd) (hmap.low d hd)
  have hend := (physicalEnd_of_low (hmap.low d hd)).2
  refine ⟨m', _, h1, ?_, fun g hg hbit => ?_, fun hsorted d' hd' hav g hin => ?_, fun hsorted d' hd' hav => ?_⟩
  · split
    · exact dvd_physicalEnd hmap hd
    · exact h.aligned
  · rw [Bool.eq_false_iff, ne_eq, h2, not_or, not_or] at hbit
    obtain ⟨hold, hgap, -⟩ := hbit
    rcases Nat.lt_or_ge (g * kBytesPerFrame) availableEnd with hlt | hge
    · obtain ⟨d', hd', hin⟩ := h.covered g hlt (Bool.eq_false_iff.mpr hold)
      exact ⟨d', List.mem_append_left _ hd', hin⟩
    · -- the frame was passed by the new end: it is not in the gap, and so in the descriptor
      cases hav : isAvailable d.type with
      | false =>
        rw [hav, if_neg Bool.false_ne_true] at hg
        exact absurd hg (Nat.not_lt.mpr hge)
      | true =>
        rw [hav, if_pos rfl, hend] at hg
        exact ⟨d, List.mem_append_right _ List.mem_cons_self, hav, Nat.not_lt.mp fun hlt => hgap ⟨hge, hlt⟩, hg⟩
  · rw [Bool.eq_false_iff, ne_eq, h2, not_or, not_or]
    refine ⟨Bool.eq_false_iff.mp (h.clear hsorted d' hd' hav g hin), ?_, ?_⟩
    · rintro ⟨hge, hlt⟩
      have horder := hsorted
      rw [hsplit, List.pairwise_append, List.pairwise_cons] at horder
      rw [hsplit, List.mem_append, List.mem_cons] at hd'
      rcases hd' with hd' | rfl | hd'
      · have hinside := h.inside hsorted d' hd' hav
        rw [(physicalEnd_of_low (hmap.low d' (hsplit ▸ List.mem_append_left _ hd'))).2] at hinside
        exact absurd hin.2 (Nat.not_lt.mpr (Nat.le_trans hinside hge))
      · exact absurd hlt (Nat.not_lt.mpr hin.1)
      · have hle := horder.2.1.1 d' hd'
        exact absurd hlt (Nat.not_lt.mpr (Nat.le_trans hle hin.1))
    · rintro ⟨hres, hin'⟩
      have hne : d' ≠ d := by
        rintro rfl
        rw [hres] at hav
        cases hav
      obtain ⟨h3, h4⟩ := hin
      obtain ⟨h5, h6⟩ := hin'
      rcases hmap.apart.forall hd' hd hne with hle | hle
      · omega
      · omega
  · rw [List.mem_append, List.mem_singleton] at hd'
    rcases hd' with hd' | rfl
    · have hinside := h.inside hsorted d' hd' hav
      split
      · -- an earlier descriptor starts earlier, and so ends before this one starts
        have hmem : d' ∈ map := hsplit ▸ List.mem_append_left _ hd'
        rw [hsplit, List.pairwise_append] at hsorted
        have hle := hsorted.2.2 d' hd' d List.mem_cons_self
        have hpos := hmap.nonempty d hd
        rw [(physicalEnd_of_low (hmap.low d' hmem)).2, hend]
        by_cases hne : d' = d
        · exact Nat.le_of_eq (by rw [hne])
        · unfold kUEFIPageSize
          rcases hmap.apart.forall hmem hd hne with hle' | hle'
          · unfold kUEFIPageSize at hle'
            omega
          · unfold kUEFIPageSize at hle'
            omega
      · exact hinside
    · exact Nat.le_of_eq (if_pos hav).symm

/-- The whole loop. -/
theorem Progress.run (hmap : LowMap map) (hsplit : map = pre ++ rest) (h : Progress map pre m availableEnd) :
    ∃ m' e', m.markDescriptors availableEnd rest = some (m', e') ∧ Progress map map m' e' := by
  induction rest generalizing pre m availableEnd with
  | nil =>
    rw [List.append_nil] at hsplit
    exact ⟨m, availableEnd, rfl, hsplit ▸ h⟩
  | cons d rest ih =>
    obtain ⟨m₁, e₁, h1, h2⟩ := h.step hmap hsplit
    obtain ⟨m', e', h3, h4⟩ := ih (by rw [List.append_assoc]; exact hsplit) h2
    refine ⟨m', e', ?_, h4⟩
    rw [markDescriptors, h1]
    exact h3

/-- **After the marking loop**, every clear bit in the range is that of a frame of an available descriptor;
and if the map is sorted, all frames of available descriptors but frame 0 are in the range and clear. -/
theorem boot_spec (hmap : LowMap map) : ∃ m, boot map = some m ∧
    (∀ frame, 1 ≤ frame → frame < m.rangeEnd → m.getBit frame = some false →
      ∃ d ∈ map, isAvailable d.type = true ∧ d.Contains frame) ∧
    (map.Pairwise (fun d d' => d.physicalStart ≤ d'.physicalStart) →
      ∀ d ∈ map, isAvailable d.type = true → ∀ frame, d.Contains frame → frame ≠ 0 →
        (m.rangeBegin ≤ frame ∧ frame < m.rangeEnd) ∧ m.getBit frame = some false) := by
  obtain ⟨m, e, h1, h2⟩ := Progress.run hmap rfl (progress_initial hmap)
  have hin : ∀ frame, frame < e / kBytesPerFrame ↔ frame * kBytesPerFrame < e := by
    intro frame
    obtain ⟨p, rfl⟩ := h2.aligned
    unfold kUEFIPageSize kBytesPerFrame
    omega
  refine ⟨m.setMemoryRange 1 (e / kBytesPerFrame), by rw [boot, h1]; rfl, fun frame _ hlt hbit => ?_,
    fun hsorted d hd hav frame hframe hne => ?_⟩
  · have hlt' : frame < kFrameCount := by
      by_contra hge
      have hnone : m.getBit frame = none := getBit_of_le (Nat.not_lt.mp hge)
      have hsome : m.getBit frame = some false := hbit
      rw [hnone] at hsome
      cases hsome
    have hsome : m.getBit frame = some false := hbit
    rw [getBit_of_lt hlt', Option.some.injEq] at hsome
    exact h2.covered frame ((hin frame).mp hlt) hsome
  · have hlow := hmap.low d hd
    have hlt' : frame < kFrameCount := Nat.lt_of_mul_lt_mul_right (Nat.lt_of_lt_of_le hframe.2 hlow)
    have hinside := h2.inside hsorted d hd hav
    rw [(physicalEnd_of_low hlow).2] at hinside
    refine ⟨⟨Nat.pos_of_ne_zero hne, (hin frame).mpr (Nat.lt_of_lt_of_le hframe.2 hinside)⟩, ?_⟩
    have hbit : m.getBit frame = some false := by rw [getBit_of_lt hlt', h2.clear hsorted d hd hav frame hframe]
    exact hbit

/-- A map with a hole and a reserved page between two available regions. -/
theorem boot_spec_example : ∃ m,
    boot [⟨kEfiConventionalMemory, 0, 2⟩, ⟨0, 0x4000, 1⟩, ⟨kEfiBootServicesData, 0x6000, 3⟩] = some m ∧
    (m.rangeBegin ≤ 7 ∧ 7 < m.rangeEnd) ∧ m.getBit 7 = some false := by
  have hmap : LowMap [⟨kEfiConventionalMemory, 0, 2⟩, ⟨0, 0x4000, 1⟩, ⟨kEfiBootServicesData, 0x6000, 3⟩] := by
    refine ⟨by decide, by decide, by decide, ?_⟩
    simp [MemoryDescriptor.Apart, kUEFIPageSize]
  obtain ⟨m, h1, -, h2⟩ := boot_spec hmap
  refine ⟨m, h1, h2 (by decide) ⟨kEfiBootServicesData, 0x6000, 3⟩ (by decide) (by decide) 7 ?_ (by decide)⟩
  exact ⟨by decide, by decide⟩

/-! ### Any map -/

/-- The end of the last available descriptor, or 0. -/
def lastAvailableEnd (map : List MemoryDescriptor) : ℕ :=
  ((map.filter fun d => isAvailable d.type).getLast?.map MemoryDescriptor.physicalEnd).getD 0

/-- A block that is empty or lies within the bitmap. -/
def BlockFits (start n : ℕ) : Prop := n = 0 ∨ start + n ≤ kFrameCount

/-- What is marked for a descriptor lies within the bitmap: the gap from the end of the last available
descriptor, and the descriptor if it is not available. -/
def MarksFit (availableEnd : ℕ) (d : MemoryDescriptor) : Prop :=
  (availableEnd < d.physicalStart →
    BlockFits (availableEnd / kBytesPerFrame) ((d.physicalStart - availableEnd) / kBytesPerFrame)) ∧
  (isAvailable d.type = false → BlockFits (d.physicalStart / kBytesPerFrame) (d.bytes / kBytesPerFrame))

/-- All that is marked lies within the bitmap, and so does the range. -/
structure Fits (map : List MemoryDescriptor) : Prop where
  marks : ∀ pre d post, map = pre ++ d :: post → MarksFit (lastAvailableEnd pre) d
  range : lastAvailableEnd map / kBytesPerFrame ≤ kFrameCount

/-- What becomes of an allocator by calls of `Allocate` and `Free` that stay within the bitmap. -/
inductive Later (m : AllocMap) : AllocMap → Prop where
  /-- No call. -/
  | refl : Later m m
  /-- `Allocate`. -/
  | allocate {m₁ m₂ : AllocMap} {n : ℕ} {r : Except Error ℕ} (h : Later m m₁) (hcall : m₁.allocate n = some (r, m₂)) :
    Later m m₂
  /-- `Free`. -/
  | free {m₁ m₂ : AllocMap} {start n : ℕ} (h : Later m m₁) (hcall : m₁.free start n = some m₂) : Later m m₂

/-- `InitializeMemoryManager` and every later `Allocate` stay within the bitmap. -/
def Contained (map : List MemoryDescriptor) : Prop :=
  ∃ r m, initializeMemoryManager map = some (r, m) ∧
    ((∃ heapStart, r = .ok heapStart) → ∀ m', Later m m' → ∀ n, ∃ r' m'', m'.allocate n = some (r', m''))

theorem setBits_isSome {start n : ℕ} {allocated : Bool} :
    (∃ m', m.setBits start allocated n = some m') ↔ BlockFits start n := by
  constructor
  · rintro ⟨m', h⟩
    by_contra hout
    rw [BlockFits, not_or, Nat.not_le] at hout
    rw [setBits_of_lt hout.1 hout.2] at h
    cases h
  · rintro (rfl | h)
    · exact ⟨m, rfl⟩
    · obtain ⟨m', h1, -⟩ := m.setBits_of_le allocated h
      exact ⟨m', h1⟩

theorem lastAvailableEnd_append : lastAvailableEnd (pre ++ [d]) =
    if isAvailable d.type then d.physicalEnd else lastAvailableEnd pre := by
  unfold lastAvailableEnd
  rw [List.filter_append]
  cases hav : isAvailable d.type with
  | true => simp [hav]
  | false => simp [hav]

/-- What it takes for the body of the loop to be defined. -/
theorem markDescriptor_isSome {e : ℕ} : (∃ m', m.markDescriptor availableEnd d = some (m', e)) ↔
    e = (if isAvailable d.type then d.physicalEnd else availableEnd) ∧ MarksFit availableEnd d := by
  -- the gap
  have hgap : (∃ m₁, (if availableEnd < d.physicalStart then
      m.markAllocated (availableEnd / kBytesPerFrame) ((d.physicalStart - availableEnd) / kBytesPerFrame) else some m) =
        some m₁) ↔ (availableEnd < d.physicalStart →
      BlockFits (availableEnd / kBytesPerFrame) ((d.physicalStart - availableEnd) / kBytesPerFrame)) := by
    by_cases hlt : availableEnd < d.physicalStart
    · rw [if_pos hlt]
      exact ⟨fun h _ => setBits_isSome.mp h, fun h => setBits_isSome.mpr (h hlt)⟩
    · rw [if_neg hlt]
      exact ⟨fun _ h => absurd h hlt, fun _ => ⟨m, rfl⟩⟩
  unfold markDescriptor MarksFit
  rw [← hgap]
  constructor
  · rintro ⟨m', h⟩
    obtain ⟨m₁, h1, h2⟩ := Option.bind_eq_some_iff.mp h
    cases hav : isAvailable d.type with
    | true =>
      rw [hav, if_pos rfl] at h2
      cases h2
      exact ⟨rfl, ⟨_, h1⟩, fun h => by cases h⟩
    | false =>
      rw [hav, if_neg Bool.false_ne_true] at h2
      obtain ⟨m₂, h3, h4⟩ := Option.map_eq_some_iff.mp h2
      cases h4
      exact ⟨rfl, ⟨m₁, h1⟩, fun _ => setBits_isSome.mp ⟨m', h3⟩⟩
  · rintro ⟨rfl, ⟨m₁, h1⟩, h2⟩
    cases hav : isAvailable d.type with
    | true => exact ⟨m₁, by rw [h1]; rfl⟩
    | false =>
      obtain ⟨m₂, h3⟩ := setBits_isSome.mpr (h2 hav)
      refine ⟨m₂, ?_⟩
      have hmark : m₁.markAllocated (d.physicalStart / kBytesPerFrame) (d.bytes / kBytesPerFrame) = some m₂ := h3
      rw [h1, Option.bind_some, if_neg Bool.false_ne_true, if_neg Bool.false_ne_true, hmark]
      rfl

/-- What it takes for the loop to be defined. -/
theorem markDescriptors_isSome {e : ℕ} : (∃ m', m.markDescriptors (lastAvailableEnd pre) rest = some (m', e)) ↔
    e = lastAvailableEnd (pre ++ rest) ∧
      ∀ mid d post, rest = mid ++ d :: post → MarksFit (lastAvailableEnd (pre ++ mid)) d := by
  induction rest generalizing pre m with
  | nil =>
    rw [List.append_nil]
    constructor
    · rintro ⟨m', h⟩
      cases h
      exact ⟨rfl, fun mid d post h => by simp at h⟩
    · rintro ⟨rfl, -⟩
      exact ⟨m, rfl⟩
  | cons d rest ih =>
    have hstep : ∀ m₁ : AllocMap, (∃ m', m₁.markDescriptors (lastAvailableEnd (pre ++ [d])) rest = some (m', e)) ↔ _ :=
      fun m₁ => ih
    rw [List.append_assoc] at hstep
    unfold markDescriptors
    constructor
    · rintro ⟨m', h⟩
      obtain ⟨⟨m₁, e₁⟩, h1, h2⟩ := Option.bind_eq_some_iff.mp h
      obtain ⟨h3, h4⟩ := markDescriptor_isSome.mp ⟨m₁, h1⟩
      rw [← lastAvailableEnd_append] at h3
      subst h3
      obtain ⟨h5, h6⟩ := (hstep m₁).mp ⟨m', h2⟩
      refine ⟨h5, fun mid d' post hsplit => ?_⟩
      cases mid with
      | nil =>
        cases hsplit
        rwa [List.append_nil]
      | cons d₀ mid =>
        cases hsplit
        have hfit := h6 mid d' post rfl
        rwa [List.append_assoc] at hfit
    · rintro ⟨rfl, hfit⟩
      have hfirst := hfit [] d rest rfl
      rw [List.append_nil] at hfirst
      obtain ⟨m₁, h1⟩ := (markDescriptor_isSome (m := m)).mpr ⟨rfl, hfirst⟩
      rw [← lastAvailableEnd_append] at h1
      have hrest : ∀ mid d' post, rest = mid ++ d' :: post → MarksFit (lastAvailableEnd (pre ++ [d] ++ mid)) d' := by
        intro mid d' post hsplit
        have hlater := hfit (d :: mid) d' post (by rw [hsplit]; rfl)
        rwa [List.append_assoc]
      obtain ⟨m', h2⟩ := (hstep m₁).mpr ⟨rfl, hrest⟩
      exact ⟨m', by rw [h1]; exact h2⟩

theorem Later.rangeEnd_le {m' : AllocMap} (h : Later m m') (hrange : m.rangeEnd ≤ kFrameCount) :
    m'.rangeEnd ≤ kFrameCount := by
  induction h with
  | refl => exact hrange
  | @allocate m₁ m₂ n r h hcall ih =>
    cases r with
    | error err => exact allocate_error ih hcall ▸ ih
    | ok s =>
      obtain ⟨-, -, -, -, hend⟩ := allocate_ok ih hcall
      exact hend ▸ ih
  | free h hcall ih =>
    obtain ⟨-, -, hend⟩ := setBits_some hcall
    exact hend ▸ ih

/-- **The bitmap is never left** exactly if all that is marked, and the range, lie within it. -/
theorem contained_iff (map : List MemoryDescriptor) : Contained map ↔ Fits map := by
  have hloop := @markDescriptors_isSome initial [] map (lastAvailableEnd map)
  constructor
  · rintro ⟨r, m, h, hlater⟩
    obtain ⟨m₀, h1, h2⟩ := Option.bind_eq_some_iff.mp h
    obtain ⟨⟨m₁, e⟩, h3, rfl⟩ := Option.map_eq_some_iff.mp h1
    obtain ⟨rfl, hmarks⟩ := (@markDescriptors_isSome initial [] map e).mp ⟨m₁, h3⟩
    refine ⟨hmarks, ?_⟩
    by_contra hout
    have hrange : kFrameCount < (m₁.setMemoryRange 1 (lastAvailableEnd ([] ++ map) / kBytesPerFrame)).rangeEnd :=
      Nat.not_le.mp hout
    have hbegin : (m₁.setMemoryRange 1 (lastAvailableEnd ([] ++ map) / kBytesPerFrame)).rangeBegin ≤ kFrameCount :=
      (by decide : 1 ≤ kFrameCount)
    rcases allocate_beyond hrange hbegin (n := kHeapFrames) with hnone | ⟨s, m', hok, -, hbegin', hend'⟩
    · rw [hnone] at h2
      cases h2
    · -- the heap was allocated; an `Allocate` of more frames than the bitmap has leaves it
      rw [hok] at h2
      cases h2
      obtain ⟨r', m'', hcall⟩ := hlater ⟨s, rfl⟩ _ .refl (kFrameCount + 1)
      rcases allocate_beyond (hend' ▸ hrange) (hbegin' ▸ hbegin) (n := kFrameCount + 1) with hnone | ⟨_, _, -, hle, -⟩
      · rw [hnone] at hcall
        cases hcall
      · exact absurd hle (Nat.not_succ_le_self _)
  · rintro ⟨hmarks, hrange⟩
    obtain ⟨m₁, h1⟩ := hloop.mpr ⟨rfl, hmarks⟩
    have hboot : boot map = some (m₁.setMemoryRange 1 (lastAvailableEnd map / kBytesPerFrame)) := by
      have h1' : initial.markDescriptors 0 map = some (m₁, lastAvailableEnd map) := h1
      rw [boot, h1']
      rfl
    obtain ⟨r, m, h2, h3, -⟩ := allocate_toBitmap (m := m₁.setMemoryRange 1 (lastAvailableEnd map / kBytesPerFrame))
      (n := kHeapFrames) hrange
    refine ⟨r, m, by rw [initializeMemoryManager, hboot]; exact h2, fun _ m' hlater n => ?_⟩
    obtain ⟨r', m'', h4, -⟩ := allocate_toBitmap (n := n) (hlater.rangeEnd_le h3)
    exact ⟨r', m'', h4⟩

/-- 128 MiB of memory, and a reserved range of 12 GiB below 1 TiB. -/
theorem not_contained_reserved :
    ¬ Contained [⟨kEfiConventionalMemory, 0x100000, 0x8000⟩, ⟨0, 0xfd00000000, 0x300000⟩] := by
  rintro ⟨r, m, h, -⟩
  obtain ⟨m₀, h1, -⟩ := Option.bind_eq_some_iff.mp h
  obtain ⟨⟨m₁, e⟩, h2, -⟩ := Option.map_eq_some_iff.mp h1
  obtain ⟨-, hmarks⟩ := (@markDescriptors_isSome initial [] _ e).mp ⟨m₁, h2⟩
  obtain ⟨-, hreserved⟩ := hmarks [⟨kEfiConventionalMemory, 0x100000, 0x8000⟩] ⟨0, 0xfd00000000, 0x300000⟩ [] rfl
  have hfits := hreserved rfl
  unfold BlockFits at hfits
  exact absurd hfits (by decide)

end AllocMap

end DuvuvurKernel
