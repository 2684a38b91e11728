import DuvuvurKernel.Syscall.AppMemory

/-!
# The heap of an app

`sbrk` of `newlib_support.c`, which gets the memory of `malloc` from `DemandPages`.

## The model

`Sbrk` holds the two static variables of `sbrk`. `AppHeap` adds the memory of the app, which direct
calls of `DemandPages` move as well, and the ranges that have been handed out so far: the blocks of
`sbrk`, the pages it has demanded for them, and the pages of the direct calls.

**Result** (`heap_blocks_apart`): in every run in which no address wraps around, the blocks of `sbrk` are
apart, lie in pages that `sbrk` has demanded, and no direct call returns a part of one. A block always
ends at or before `program_break`, and what lies between there and `dpage_end` has been handed out to
nobody (`Tidy`).
-/

namespace DuvuvurKernel

/-- The static variables of `sbrk`. -/
structure Sbrk where
  /-- `dpage_end`. -/
  dpageEnd : ℕ
  /-- `program_break`. -/
  programBreak : ℕ

/-- Addresses, from the first to the one before the second. -/
structure AddressRange where
  first : ℕ
  past : ℕ

/-- An address is in the range. -/
def AddressRange.Has (r : AddressRange) (v : ℕ) : Prop := r.first ≤ v ∧ v < r.past

/-- No address is in both ranges. -/
def AddressRange.Apart (r r' : AddressRange) : Prop := ∀ v, ¬ (r.Has v ∧ r'.Has v)

namespace Sbrk

/-- `program_break + incr`. -/
def moved (s : Sbrk) (incr : ℤ) : ℕ := ((s.programBreak + incr) % 2 ^ 64).toNat

/-- The pages at hand are not enough: `dpage_end == 0 || dpage_end < program_break + incr`. -/
def Short (s : Sbrk) (incr : ℤ) : Prop := s.dpageEnd = 0 ∨ s.dpageEnd < s.moved incr

instance decidableShort (s : Sbrk) (incr : ℤ) : Decidable (s.Short incr) :=
  inferInstanceAs (Decidable (_ ∨ _))

/-- `num_pages`. -/
def numPages (incr : ℤ) : ℤ := (incr + 4095).tdiv 4096

/-- The end of `sbrk`: the break moves. -/
def advance (s : Sbrk) (incr : ℤ) : ℕ × Sbrk := (s.programBreak, { s with programBreak := s.moved incr })

/-- `sbrk`: without a result it has set `errno` to `ENOMEM` and returned -1. -/
def sbrk (s : Sbrk) (a : AppMemory) (incr : ℤ) : Option ℕ × Sbrk × AppMemory :=
  if s.Short incr then
    match a.demandPages (UInt64.ofInt (numPages incr)) with
    | (.error _, a) => (none, s, a)
    | (.ok value, a) =>
      let (prevBreak, s) := advance ⟨((value + 4096 * numPages incr) % 2 ^ 64).toNat, value⟩ incr
      (some prevBreak, s, a)
  else
    let (prevBreak, s) := s.advance incr
    (some prevBreak, s, a)

end Sbrk

/-- What an app calls: `sbrk`, or `SyscallDemandPages` itself. -/
inductive HeapCall where
  | sbrk (incr : ℤ)
  | demandPages (numPages : UInt64)

/-- An app's memory and the ranges handed out. -/
structure AppHeap where
  /-- What the task keeps. -/
  memory : AppMemory
  /-- What `sbrk` keeps. -/
  statics : Sbrk
  /-- The blocks that `sbrk` has returned, the latest first. -/
  blocks : List AddressRange
  /-- The pages that `sbrk` has demanded. -/
  own : List AddressRange
  /-- The pages that direct calls have returned. -/
  direct : List AddressRange

namespace AppHeap

/-- The pages that `DemandPages` returns. -/
def pages (a : AppMemory) (numPages : UInt64) : List AddressRange :=
  match (a.demandPages numPages).1 with
  | .error _ => []
  | .ok value => [⟨value, value + 4096 * numPages.toNat⟩]

/-- A call. -/
def call (h : AppHeap) : HeapCall → AppHeap
  | .sbrk incr =>
    let (result, statics, memory) := h.statics.sbrk h.memory incr
    { h with
      memory := memory
      statics := statics
      blocks := (result.toList.map fun block => ⟨block, block + incr.toNat⟩) ++ h.blocks
      own := (if h.statics.Short incr then pages h.memory (UInt64.ofInt (Sbrk.numPages incr)) else []) ++ h.own }
  | .demandPages numPages =>
    { h with memory := (h.memory.demandPages numPages).2, direct := pages h.memory numPages ++ h.direct }

/-- An app that has not called `sbrk` yet: its static variables are 0. -/
def start (a : AppMemory) : AppHeap := ⟨a, ⟨0, 0⟩, [], [], []⟩

/-- An increment that `sbrk` can be called with, and no address wraps around. -/
def Sound (h : AppHeap) : HeapCall → Prop
  | .sbrk incr => 0 ≤ incr ∧ incr ≤ 2 ^ 31 - 4096 ∧ h.statics.programBreak + incr < 2 ^ 64 ∧
    h.memory.dpagingEnd + 4096 * Sbrk.numPages incr < 2 ^ 64
  | .demandPages numPages => h.memory.dpagingEnd + 4096 * numPages.toNat < 2 ^ 64

instance decidableSound (h : AppHeap) : (c : HeapCall) → Decidable (h.Sound c)
  | .sbrk _ => inferInstanceAs (Decidable (_ ∧ _ ∧ _ ∧ _))
  | .demandPages _ => inferInstanceAs (Decidable (_ < _))

/-- So it is for every call of a run. -/
def AllSound (h : AppHeap) : List HeapCall → Prop
  | [] => True
  | c :: calls => h.Sound c ∧ (h.call c).AllSound calls

instance decidableAllSound (h : AppHeap) : (calls : List HeapCall) → Decidable (h.AllSound calls)
  | [] => .isTrue trivial
  | c :: calls => @instDecidableAnd _ _ _ (decidableAllSound (h.call c) calls)

/-- The heap after a run of calls. -/
def run (h : AppHeap) (calls : List HeapCall) : AppHeap := calls.foldl call h

/-- What is asked of the ranges. -/
structure BlocksApart (h : AppHeap) : Prop where
  pairwise : h.blocks.Pairwise AddressRange.Apart
  own_pages : ∀ b ∈ h.blocks, ∀ v, b.Has v → ∃ r ∈ h.own, r.Has v
  direct_apart : ∀ b ∈ h.blocks, ∀ r ∈ h.direct, b.Apart r

/-! ### The invariant -/

/-- The blocks lie one after the other before the break. From the break to `dpage_end` there are pages of
`sbrk`, where no direct call has returned anything. -/
structure Tidy (h : AppHeap) : Prop where
  apart : h.BlocksApart
  break_le : h.statics.programBreak ≤ h.statics.dpageEnd
  dpageEnd_le : h.statics.dpageEnd ≤ h.memory.dpagingEnd
  blocks_le : ∀ b ∈ h.blocks, b.past ≤ h.statics.programBreak
  direct_le : ∀ r ∈ h.direct, r.past ≤ h.memory.dpagingEnd
  direct_out : ∀ r ∈ h.direct, r.past ≤ h.statics.programBreak ∨ h.statics.dpageEnd ≤ r.first
  tail_own : ∀ v, h.statics.programBreak ≤ v → v < h.statics.dpageEnd → ∃ r ∈ h.own, r.Has v

variable {h : AppHeap} {a : AppMemory} {s : Sbrk} {incr : ℤ} {n : UInt64} {c : HeapCall}

theorem tidy_start : (start a).Tidy where
  apart := ⟨List.Pairwise.nil, by simp [start], by simp [start]⟩
  break_le := le_rfl
  dpageEnd_le := Nat.zero_le _
  blocks_le := by simp [start]
  direct_le := by simp [start]
  direct_out := by simp [start]
  tail_own := fun v _ hlt => absurd hlt (Nat.not_lt_zero v)

theorem demandPages_eq (hn : a.dpagingEnd + 4096 * n.toNat < 2 ^ 64) :
    a.demandPages n = (.ok a.dpagingEnd, { a with dpagingEnd := a.dpagingEnd + 4096 * n.toNat }) := by
  unfold AppMemory.demandPages
  rw [Nat.mod_eq_of_lt hn]

theorem Tidy.demandPages (ht : h.Tidy) (hs : h.Sound (.demandPages n)) : (h.call (.demandPages n)).Tidy := by
  have hend := demandPages_eq hs
  have hcall : h.call (.demandPages n) =
      { h with
        memory := { h.memory with dpagingEnd := h.memory.dpagingEnd + 4096 * n.toNat }
        direct := ⟨h.memory.dpagingEnd, h.memory.dpagingEnd + 4096 * n.toNat⟩ :: h.direct } := by
    simp only [call, pages, hend]
    rfl
  rw [hcall]
  have hle := ht.dpageEnd_le
  constructor
  case apart =>
    refine ⟨ht.apart.pairwise, ht.apart.own_pages, fun b hb r hr => ?_⟩
    rcases List.mem_cons.mp hr with rfl | hr
    · rintro v ⟨hv, hv'⟩
      have hpast := ht.blocks_le b hb
      have hbreak := ht.break_le
      have hlt := hv.2
      have hge := hv'.1
      dsimp only at hge
      omega
    · exact ht.apart.direct_apart b hb r hr
  case break_le => exact ht.break_le
  case dpageEnd_le => exact hle.trans (Nat.le_add_right _ _)
  case blocks_le => exact ht.blocks_le
  case direct_le =>
    intro r hr
    rcases List.mem_cons.mp hr with rfl | hr
    · exact le_rfl
    · exact (ht.direct_le r hr).trans (Nat.le_add_right _ _)
  case direct_out =>
    intro r hr
    rcases List.mem_cons.mp hr with rfl | hr
    · exact .inr hle
    · exact ht.direct_out r hr
  case tail_own => exact ht.tail_own

/-- The end of `sbrk` when the pages at hand are enough: the block at the break. -/
theorem Tidy.advance (ht : h.Tidy) (hpos : 0 ≤ incr) (hroom : h.statics.programBreak + incr ≤ h.statics.dpageEnd) :
    { h with
      statics := ⟨h.statics.dpageEnd, h.statics.programBreak + incr.toNat⟩
      blocks := ⟨h.statics.programBreak, h.statics.programBreak + incr.toNat⟩ :: h.blocks : AppHeap }.Tidy where
  apart := by
    refine ⟨List.pairwise_cons.mpr ⟨fun b hb v hv => ?_, ht.apart.pairwise⟩, fun b hb v hv => ?_,
      fun b hb r hr => ?_⟩
    · have hpast := ht.blocks_le b hb
      have hge := hv.1.1
      have hlt := hv.2.2
      dsimp only at hge
      omega
    · rcases List.mem_cons.mp hb with rfl | hb
      · refine ht.tail_own v hv.1 ?_
        have hlt := hv.2
        dsimp only at hlt
        omega
      · exact ht.apart.own_pages b hb v hv
    · rcases List.mem_cons.mp hb with rfl | hb
      · rintro v ⟨⟨hge, hlt⟩, hge', hlt'⟩
        have hout := ht.direct_out r hr
        dsimp only at hge hlt
        omega
      · exact ht.apart.direct_apart b hb r hr
  break_le := by
    dsimp only
    omega
  dpageEnd_le := ht.dpageEnd_le
  blocks_le := by
    intro b hb
    rcases List.mem_cons.mp hb with rfl | hb
    · exact le_rfl
    · exact (ht.blocks_le b hb).trans (Nat.le_add_right _ _)
  direct_le := ht.direct_le
  direct_out := fun r hr => (ht.direct_out r hr).imp_left fun hle => hle.trans (Nat.le_add_right _ _)
  tail_own := fun v hge hlt => ht.tail_own v ((Nat.le_add_right _ _).trans hge) hlt

/-- New pages for `sbrk`: what is left of the old ones is given up. -/
theorem Tidy.grow (ht : h.Tidy) (k : ℕ) :
    { h with
      memory := { h.memory with dpagingEnd := h.memory.dpagingEnd + k }
      statics := ⟨h.memory.dpagingEnd + k, h.memory.dpagingEnd⟩
      own := ⟨h.memory.dpagingEnd, h.memory.dpagingEnd + k⟩ :: h.own : AppHeap }.Tidy where
  apart := by
    refine ⟨ht.apart.pairwise, fun b hb v hv => ?_, ht.apart.direct_apart⟩
    obtain ⟨r, hr, hv⟩ := ht.apart.own_pages b hb v hv
    exact ⟨r, List.mem_cons_of_mem _ hr, hv⟩
  break_le := Nat.le_add_right _ _
  dpageEnd_le := le_rfl
  blocks_le := fun b hb => (ht.blocks_le b hb).trans (ht.break_le.trans ht.dpageEnd_le)
  direct_le := fun r hr => (ht.direct_le r hr).trans (Nat.le_add_right _ _)
  direct_out := fun r hr => .inl (ht.direct_le r hr)
  tail_own := fun v hge hlt => ⟨_, List.mem_cons_self, hge, hlt⟩

/-- The pages that are demanded cover the increment. -/
theorem numPages_spec (hpos : 0 ≤ incr) (hle : incr ≤ 2 ^ 31 - 4096) :
    0 ≤ Sbrk.numPages incr ∧ incr ≤ 4096 * Sbrk.numPages incr ∧
      ((UInt64.ofInt (Sbrk.numPages incr)).toNat : ℤ) = Sbrk.numPages incr := by
  have hdiv : Sbrk.numPages incr = (incr + 4095) / 4096 := Int.tdiv_eq_ediv_of_nonneg (by omega)
  refine ⟨by omega, by omega, ?_⟩
  unfold UInt64.ofInt
  rw [UInt64.toNat_ofNat_of_lt' (by rw [UInt64.size]; omega)]
  omega

theorem moved_eq (hpos : 0 ≤ incr) (hlt : s.programBreak + incr < 2 ^ 64) :
    s.moved incr = s.programBreak + incr.toNat := by
  unfold Sbrk.moved
  rw [Int.emod_eq_of_lt (by omega) hlt]
  omega

theorem Tidy.sbrk (ht : h.Tidy) (hs : h.Sound (.sbrk incr)) : (h.call (.sbrk incr)).Tidy := by
  obtain ⟨hpos, hle, hbreak, hend⟩ := hs
  have hmoved := moved_eq hpos hbreak
  by_cases hshort : h.statics.Short incr
  · obtain ⟨hn, hcover, hcast⟩ := numPages_spec hpos hle
    obtain ⟨n, hk⟩ : ∃ n : UInt64, n = UInt64.ofInt (Sbrk.numPages incr) := ⟨_, rfl⟩
    rw [← hk] at hcast
    have hdemand : h.memory.demandPages n =
        (.ok h.memory.dpagingEnd, { h.memory with dpagingEnd := h.memory.dpagingEnd + 4096 * n.toNat }) :=
      demandPages_eq (by omega)
    have hdpage : ((h.memory.dpagingEnd + 4096 * Sbrk.numPages incr) % 2 ^ 64).toNat =
        h.memory.dpagingEnd + 4096 * n.toNat := by
      rw [Int.emod_eq_of_lt (by omega) hend]
      omega
    have hadvance := (ht.grow (4096 * n.toNat)).advance hpos (by dsimp only; omega)
    have hcall : h.call (.sbrk incr) =
        { h with
          memory := { h.memory with dpagingEnd := h.memory.dpagingEnd + 4096 * n.toNat }
          statics := ⟨h.memory.dpagingEnd + 4096 * n.toNat, h.memory.dpagingEnd + incr.toNat⟩
          blocks := ⟨h.memory.dpagingEnd, h.memory.dpagingEnd + incr.toNat⟩ :: h.blocks
          own := ⟨h.memory.dpagingEnd, h.memory.dpagingEnd + 4096 * n.toNat⟩ :: h.own } := by
      have hbase : (⟨h.memory.dpagingEnd + 4096 * n.toNat, h.memory.dpagingEnd⟩ : Sbrk).moved incr =
          h.memory.dpagingEnd + incr.toNat := moved_eq hpos (by dsimp only; omega)
      simp only [call, Sbrk.sbrk, if_pos hshort, pages, ← hk, hdemand, hdpage, Sbrk.advance, hbase]
      rfl
    rw [hcall]
    exact hadvance
  · have hcall : h.call (.sbrk incr) =
        { h with
          statics := ⟨h.statics.dpageEnd, h.statics.programBreak + incr.toNat⟩
          blocks := ⟨h.statics.programBreak, h.statics.programBreak + incr.toNat⟩ :: h.blocks } := by
      simp only [call, Sbrk.sbrk, if_neg hshort, Sbrk.advance, hmoved]
      rfl
    rw [hcall]
    refine ht.advance hpos ?_
    have hroom := (not_or.mp hshort).2
    rw [hmoved] at hroom
    omega

/-- **One call** keeps the ranges in order. -/
theorem Tidy.call (ht : h.Tidy) (hs : h.Sound c) : (h.call c).Tidy := by
  cases c with
  | sbrk incr => exact ht.sbrk hs
  | demandPages n => exact ht.demandPages hs

/-- A run of calls. -/
theorem Tidy.calls {calls : List HeapCall} (ht : h.Tidy) (hs : h.AllSound calls) : (h.run calls).Tidy := by
  induction calls generalizing h with
  | nil => exact ht
  | cons c calls ih => exact ih (ht.call hs.1) hs.2

/-- **The blocks of `sbrk` are apart**, in pages that `sbrk` has demanded and away from the pages of all direct
calls, after every run of calls in which no address wraps around. -/
theorem heap_blocks_apart (a : AppMemory) (calls : List HeapCall) (hsound : (start a).AllSound calls) :
    ((start a).run calls).BlocksApart :=
  (tidy_start.calls hsound).apart

/-- The second block takes the rest of the first page. The third gets a page of its own, after the pages of the
direct call. -/
theorem heap_blocks_apart_three : ((start (AppMemory.enter 0xffff800000001234)).run
    [.sbrk 1000, .demandPages 2, .sbrk 3096, .sbrk 1]).BlocksApart :=
  heap_blocks_apart _ _ (by decide +kernel)

end AppHeap

end DuvuvurKernel
