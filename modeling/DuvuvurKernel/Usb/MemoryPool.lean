import DuvuvurKernel.Lib.Alignment
import Mathlib.Order.CompletePartialOrder
import Mathlib.Order.Interval.Set.Disjoint

/-!
# The memory of the USB driver

`usb/memory.cpp`: `AllocMem` takes a block from `memory_pool` behind those it has given out, at a place with the
alignment and the boundary that are asked for. `FreeMem` does nothing, so a block is never given out again.

## The model

The pool is its address; it ends before the address space does. A request is `Valid` as the callers make them, and
`NoWrap` says that no sum of the call reaches `2 ^ 64`.

**Result** (`blocks_placed`): after any requests the blocks lie in the pool and apart from each other, each with its
alignment and boundary, and a request is refused only if no place for it is left.
-/

namespace DuvuvurKernel.Usb

open Lib.Alignment

/-- `kMemoryPoolSize`. -/
def kMemoryPoolSize : UInt64 := 4096 * 32

/-- `Ceil`. -/
def ceil (value : UInt64) (alignment : UInt32) : UInt64 :=
  (value + alignment.toUInt64 - 1) &&& ~~~(alignment - 1).toUInt64

/-- The arguments of `AllocMem`. -/
structure AllocRequest where
  size : UInt64
  alignment : UInt32
  boundary : UInt32

/-- `memory_pool`. -/
structure MemoryPool where
  base : UInt64
  fits : base.toNat + kMemoryPoolSize.toNat < 2 ^ 64

/-- `AllocMem`: the block, if there is one, and `alloc_ptr` afterwards. -/
def MemoryPool.allocMem (m : MemoryPool) (allocPtr : UInt64) (r : AllocRequest) : Option UInt64 × UInt64 :=
  let allocPtr := if 0 < r.alignment then ceil allocPtr r.alignment else allocPtr
  let allocPtr := if 0 < r.boundary then
    let nextBoundary := ceil allocPtr r.boundary
    if nextBoundary < allocPtr + r.size then nextBoundary else allocPtr
  else allocPtr
  if m.base + kMemoryPoolSize < allocPtr + r.size then (none, allocPtr) else (some allocPtr, allocPtr + r.size)

/-! ### Requests -/

/-- The numbers that are asked for as an alignment or a boundary. -/
def ZeroOrPower (a : UInt32) : Prop := a = 0 ∨ ∃ k, a.toNat = 2 ^ k

/-- What may be asked for. -/
structure AllocRequest.Valid (r : AllocRequest) : Prop where
  size : 1 ≤ r.size
  alignment : ZeroOrPower r.alignment
  boundary : ZeroOrPower r.boundary
  le : r.alignment ≠ 0 → r.boundary ≠ 0 → r.alignment ≤ r.boundary

/-- A place for the block from an address on. -/
def AllocRequest.placeFrom (r : AllocRequest) (allocPtr : ℕ) : ℕ :=
  firstPlace r.size.toNat r.alignment.toNat r.boundary.toNat allocPtr

/-- The block could begin here. -/
def AllocRequest.MayBegin (r : AllocRequest) (p : ℕ) : Prop := IsPlace r.size.toNat r.alignment.toNat r.boundary.toNat p

/-- No sum of the call wraps. -/
structure AllocRequest.NoWrap (r : AllocRequest) (allocPtr : UInt64) : Prop where
  aligned : allocPtr.toNat + r.alignment.toNat - 1 < 2 ^ 64
  bounded : roundUp allocPtr.toNat r.alignment.toNat + r.boundary.toNat - 1 < 2 ^ 64
  size : r.placeFrom allocPtr.toNat + r.size.toNat < 2 ^ 64

/-- `alloc_ptr` and the blocks that have been given out, each with what was asked for. -/
structure Allocations where
  allocPtr : UInt64
  blocks : List (AllocRequest × UInt64)

/-- A call of `AllocMem`. -/
def MemoryPool.alloc (m : MemoryPool) (s : Allocations) (r : AllocRequest) : Allocations where
  allocPtr := (m.allocMem s.allocPtr r).2
  blocks := s.blocks ++ ((m.allocMem s.allocPtr r).1.map fun p => (r, p)).toList

/-- What any valid requests lead to. -/
inductive MemoryPool.Reachable (m : MemoryPool) : Allocations → Prop where
  /-- Nothing has been asked for. -/
  | init : m.Reachable ⟨m.base, []⟩
  /-- One more request. -/
  | alloc {s : Allocations} {r : AllocRequest} : m.Reachable s → r.Valid → r.NoWrap s.allocPtr →
    m.Reachable (m.alloc s r)

/-- The bytes of a block. -/
def blockBytes (b : AllocRequest × UInt64) : Set ℕ := Set.Ico b.2.toNat (b.2.toNat + b.1.size.toNat)

/-- The bytes of the pool. -/
def MemoryPool.bytes (m : MemoryPool) : Set ℕ := Set.Ico m.base.toNat (m.base.toNat + kMemoryPoolSize.toNat)

variable {m : MemoryPool} {s : Allocations} {r : AllocRequest} {value allocPtr : UInt64} {a : UInt32}

/-! ### One call -/

theorem toNat_ceil (ha : ZeroOrPower a) (hne : 0 < a) (hfit : value.toNat + a.toNat - 1 < 2 ^ 64) :
    (ceil value a).toNat = roundUp value.toNat a.toNat := by
  obtain ⟨k, hk⟩ := ha.resolve_left (UInt32.pos_iff_ne_zero.mp hne)
  have hlt := a.toNat_lt
  have hk64 : k ≤ 64 := (Nat.pow_lt_pow_iff_right Nat.one_lt_two).mp (hk ▸ Nat.lt_trans hlt (by decide)) |>.le
  have hpos := Nat.two_pow_pos k
  have hsum : (value + a.toUInt64 - 1).toNat = value.toNat + 2 ^ k - 1 := by
    rw [UInt64.toNat_sub, UInt64.toNat_add, UInt32.toNat_toUInt64, hk]
    have hone : (1 : UInt64).toNat = 1 := rfl
    omega
  have hlow : (a - 1).toNat = 2 ^ k - 1 := by
    rw [UInt32.toNat_sub_of_le _ _ (UInt32.le_iff_toNat_le.mpr (hk ▸ hpos)), hk]
    rfl
  rw [ceil, UInt64.toNat_and, UInt64.toNat_not, UInt32.toNat_toUInt64, hsum, hlow, hk]
  exact and_not_eq_roundUp (by omega) hk64

theorem AllocRequest.Valid.dvd (h : r.Valid) (ha : r.alignment.toNat ≠ 0) (hb : r.boundary.toNat ≠ 0) :
    r.alignment.toNat ∣ r.boundary.toNat := by
  have ha' : r.alignment ≠ 0 := fun h0 => ha (by rw [h0]; rfl)
  have hb' : r.boundary ≠ 0 := fun h0 => hb (by rw [h0]; rfl)
  obtain ⟨i, hi⟩ := h.alignment.resolve_left ha'
  obtain ⟨j, hj⟩ := h.boundary.resolve_left hb'
  have hle := UInt32.le_iff_toNat_le.mp (h.le ha' hb')
  rw [hi, hj] at hle ⊢
  exact pow_dvd_pow 2 ((Nat.pow_le_pow_iff_right Nat.one_lt_two).mp hle)

theorem toNat_end (m : MemoryPool) : (m.base + kMemoryPoolSize).toNat = m.base.toNat + kMemoryPoolSize.toNat := by
  rw [UInt64.toNat_add, Nat.mod_eq_of_lt m.fits]

/-- Rounding up, where it is asked for. -/
theorem toNat_rounded (ha : ZeroOrPower a) (hfit : value.toNat + a.toNat - 1 < 2 ^ 64) :
    (if 0 < a then ceil value a else value).toNat = roundUp value.toNat a.toNat := by
  split
  next hne => exact toNat_ceil ha hne hfit
  next hzero =>
    have h0 : a = 0 := by simpa using hzero
    subst h0
    exact (if_pos rfl).symm

/-- **A call of `AllocMem`** takes the first place, if the pool reaches behind the block. -/
theorem MemoryPool.allocMem_cases (m : MemoryPool) (h : r.Valid) (hw : r.NoWrap allocPtr) :
    ∃ p : UInt64, p.toNat = r.placeFrom allocPtr.toNat ∧ (p + r.size).toNat = p.toNat + r.size.toNat ∧
      ((m.base.toNat + kMemoryPoolSize.toNat < p.toNat + r.size.toNat ∧ m.allocMem allocPtr r = (none, p)) ∨
        (p.toNat + r.size.toNat ≤ m.base.toNat + kMemoryPoolSize.toNat ∧
            m.allocMem allocPtr r = (some p, p + r.size))) := by
  have haligned := toNat_rounded h.alignment hw.aligned
  have hsize := hw.size
  rw [MemoryPool.allocMem]
  rw [AllocRequest.placeFrom, firstPlace, ← haligned] at hsize ⊢
  have hbounded := hw.bounded
  rw [← haligned] at hbounded
  generalize (if 0 < r.alignment then ceil allocPtr r.alignment else allocPtr) = q at *
  have hq : (q + r.size).toNat = q.toNat + r.size.toNat := by
    rw [UInt64.toNat_add, Nat.mod_eq_of_lt]
    refine Nat.lt_of_le_of_lt (Nat.add_le_add_right ?_ _) hsize
    split
    next => exact le_roundUp _ _
    next => exact Nat.le_refl _
  have hplace : (if 0 < r.boundary then if ceil q r.boundary < q + r.size then ceil q r.boundary else q else q).toNat =
      if r.boundary.toNat ≠ 0 ∧ roundUp q.toNat r.boundary.toNat < q.toNat + r.size.toNat then
        roundUp q.toNat r.boundary.toNat else q.toNat := by
    by_cases hb : 0 < r.boundary
    · have hne : r.boundary.toNat ≠ 0 := Nat.pos_iff_ne_zero.mp (UInt32.lt_iff_toNat_lt.mp hb)
      have hlt : ceil q r.boundary < q + r.size ↔ (ceil q r.boundary).toNat < q.toNat + r.size.toNat := by
        rw [UInt64.lt_iff_toNat_lt, hq]
      rw [if_pos hb, ← toNat_ceil h.boundary hb hbounded]
      by_cases hnext : ceil q r.boundary < q + r.size
      · rw [if_pos hnext, if_pos ⟨hne, hlt.mp hnext⟩]
      · rw [if_neg hnext, if_neg fun hand => hnext (hlt.mpr hand.2)]
    · have hzero : r.boundary.toNat = 0 := by
        rw [show r.boundary = 0 by simpa using hb]
        rfl
      rw [if_neg hb, if_neg fun hand => hand.1 hzero]
  rw [← hplace] at hsize ⊢
  generalize (if 0 < r.boundary then if ceil q r.boundary < q + r.size then ceil q r.boundary else q else q) = p at *
  have hp : (p + r.size).toNat = p.toNat + r.size.toNat := by rw [UInt64.toNat_add, Nat.mod_eq_of_lt hsize]
  have hfull : m.base + kMemoryPoolSize < p + r.size ↔
      m.base.toNat + kMemoryPoolSize.toNat < p.toNat + r.size.toNat := by
    rw [UInt64.lt_iff_toNat_lt, toNat_end, hp]
  refine ⟨p, rfl, hp, ?_⟩
  by_cases hlt : m.base + kMemoryPoolSize < p + r.size
  · exact .inl ⟨hfull.mp hlt, if_pos hlt⟩
  · exact .inr ⟨Nat.le_of_not_lt fun h => hlt (hfull.mpr h), if_neg hlt⟩

theorem MemoryPool.blocks_of_full {p : UInt64} (hfull : m.allocMem s.allocPtr r = (none, p)) :
    m.alloc s r = ⟨p, s.blocks⟩ := by
  rw [alloc, hfull, Option.map_none, Option.toList_none, List.append_nil]

theorem MemoryPool.blocks_of_some {p q : UInt64} (hsome : m.allocMem s.allocPtr r = (some p, q)) :
    m.alloc s r = ⟨q, s.blocks ++ [(r, p)]⟩ := by
  rw [alloc, hsome, Option.map_some, Option.toList_some]

/-! ### All calls -/

/-- The blocks lie one behind the other, up to `alloc_ptr`. -/
structure Allocations.Inv (s : Allocations) (m : MemoryPool) : Prop where
  base : m.base.toNat ≤ s.allocPtr.toNat
  inside : ∀ b ∈ s.blocks, blockBytes b ⊆ m.bytes
  before : ∀ b ∈ s.blocks, b.2.toNat + b.1.size.toNat ≤ s.allocPtr.toNat
  apart : s.blocks.Pairwise fun b c => Disjoint (blockBytes b) (blockBytes c)
  placed : ∀ b ∈ s.blocks, b.1.MayBegin b.2.toNat

theorem Allocations.Inv.alloc (h : s.Inv m) (hr : r.Valid) (hw : r.NoWrap s.allocPtr) : (m.alloc s r).Inv m := by
  obtain ⟨p, hp, hend, ⟨hfull, hcall⟩ | ⟨hfits, hcall⟩⟩ := m.allocMem_cases hr hw
  · have hle : s.allocPtr.toNat ≤ p.toNat := hp ▸ le_firstPlace _ _ _ _
    rw [MemoryPool.blocks_of_full hcall]
    exact ⟨h.base.trans hle, h.inside, fun b hb => (h.before b hb).trans hle, h.apart, h.placed⟩
  · have hle : s.allocPtr.toNat ≤ p.toNat := hp ▸ le_firstPlace _ _ _ _
    rw [MemoryPool.blocks_of_some hcall]
    refine ⟨h.base.trans (hle.trans (hend ▸ Nat.le_add_right _ _)), fun b hb => ?_, fun b hb => ?_, ?_, fun b hb => ?_⟩
    · rcases List.mem_append.mp hb with hb | hb
      · exact h.inside b hb
      · rw [List.mem_singleton.mp hb]
        exact Set.Ico_subset_Ico (h.base.trans hle) hfits
    · rcases List.mem_append.mp hb with hb | hb
      · exact (h.before b hb).trans (hle.trans (hend ▸ Nat.le_add_right _ _))
      · rw [List.mem_singleton.mp hb]
        exact hend.ge
    · refine List.pairwise_append.mpr ⟨h.apart, List.pairwise_singleton _ _, fun b hb c hc => ?_⟩
      rw [List.mem_singleton.mp hc]
      exact Set.Ico_disjoint_Ico_same.mono_right (Set.Ico_subset_Ico_left ((h.before b hb).trans hle))
    · rcases List.mem_append.mp hb with hb | hb
      · exact h.placed b hb
      · rw [List.mem_singleton.mp hb]
        exact hp ▸ isPlace_firstPlace hr.dvd

theorem MemoryPool.Reachable.inv (h : m.Reachable s) : s.Inv m := by
  induction h with
  | init => exact ⟨Nat.le_refl _, fun _ hb => absurd hb List.not_mem_nil, fun _ hb => absurd hb List.not_mem_nil, .nil,
      fun _ hb => absurd hb List.not_mem_nil⟩
  | alloc _ hr hw ih => exact ih.alloc hr hw

/-- **The blocks** lie in the pool, apart from each other, and each has its alignment and boundary. A request is refused
only if no place for it is left. -/
theorem MemoryPool.blocks_placed (h : m.Reachable s) :
    (∀ b ∈ s.blocks, blockBytes b ⊆ m.bytes ∧ b.1.MayBegin b.2.toNat) ∧
      s.blocks.Pairwise (fun b c => Disjoint (blockBytes b) (blockBytes c)) ∧
      ∀ r : AllocRequest, r.Valid → r.NoWrap s.allocPtr → (r.size ≤ r.boundary.toUInt64 ∨ r.boundary = 0) →
        (m.allocMem s.allocPtr r).1 = none → ∀ p, s.allocPtr.toNat ≤ p → r.MayBegin p →
          m.base.toNat + kMemoryPoolSize.toNat < p + r.size.toNat := by
  refine ⟨fun b hb => ⟨h.inv.inside b hb, h.inv.placed b hb⟩, h.inv.apart, fun r hr hw hsize hnone p hle hp => ?_⟩
  obtain ⟨q, hq, -, ⟨hfull, -⟩ | ⟨-, hcall⟩⟩ := m.allocMem_cases hr hw
  · have hsize' : r.size.toNat ≤ r.boundary.toNat ∨ r.boundary.toNat = 0 :=
      hsize.imp (fun hs => UInt32.toNat_toUInt64 r.boundary ▸ UInt64.le_iff_toNat_le.mp hs) fun hs => by rw [hs]; rfl
    have hfirst := firstPlace_le hsize' hp hle
    exact Nat.lt_of_lt_of_le hfull (Nat.add_le_add_right (hq ▸ hfirst) _)
  · rw [hcall] at hnone
    exact absurd hnone (Option.some_ne_none q)

/-- A pool behind the first two megabytes. -/
def lowPool : MemoryPool := ⟨0x200040, by decide⟩

/-- A hundred bytes, and then four thousand, none of which crosses a page. -/
def twoBlocks : Allocations := lowPool.alloc (lowPool.alloc ⟨lowPool.base, []⟩ ⟨100, 64, 4096⟩) ⟨4000, 64, 4096⟩

/-- The second block begins at the next page, and the pool is then too small for one of its own size. -/
theorem blocks_placed_two : twoBlocks.blocks = [(⟨100, 64, 4096⟩, 0x200040), (⟨4000, 64, 4096⟩, 0x201000)] ∧
    (lowPool.allocMem twoBlocks.allocPtr ⟨131072, 64, 0⟩).1 = none ∧
    lowPool.base.toNat + kMemoryPoolSize.toNat < 0x201fc0 + 131072 := by
  have hfirst : (⟨100, 64, 4096⟩ : AllocRequest).Valid :=
    ⟨by decide, .inr ⟨6, rfl⟩, .inr ⟨12, rfl⟩, fun _ _ => by decide⟩
  have hsecond : (⟨4000, 64, 4096⟩ : AllocRequest).Valid :=
    ⟨by decide, .inr ⟨6, rfl⟩, .inr ⟨12, rfl⟩, fun _ _ => by decide⟩
  have hwhole : (⟨131072, 64, 0⟩ : AllocRequest).Valid := ⟨by decide, .inr ⟨6, rfl⟩, .inl rfl, fun _ h => absurd rfl h⟩
  have hreach : lowPool.Reachable twoBlocks :=
    .alloc (.alloc .init hfirst ⟨by decide, by decide, by decide⟩) hsecond ⟨by decide, by decide, by decide⟩
  have hnone : (lowPool.allocMem twoBlocks.allocPtr ⟨131072, 64, 0⟩).1 = none := by rfl
  have hplace : (⟨131072, 64, 0⟩ : AllocRequest).MayBegin 0x201fc0 :=
    ⟨fun _ => by decide, fun h => absurd h (by decide)⟩
  exact ⟨by rfl, hnone,
    (MemoryPool.blocks_placed hreach).2.2 _ hwhole ⟨by decide, by decide, by decide⟩ (.inr rfl) hnone 0x201fc0
    (by decide) hplace⟩

end DuvuvurKernel.Usb
