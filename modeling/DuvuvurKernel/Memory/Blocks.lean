import DuvuvurKernel.Memory.AllocMap
import Mathlib.Data.List.Perm.Basic

/-!
# The blocks handed out

A frame allocator in use: beside the allocator there are the blocks that `Allocate` has
returned and that have not been freed, and the blocks that were given to `MarkAllocated`.
A `Step` is one call within the capacity of the bitmap.

`Safe` says what the blocks and the bits have to do with each other. It is not kept by
every call: `MarkAllocated` and `SetMemoryRange` do not look at the blocks handed out. It
is kept by a `Considerate` one, that marks no frame of such a block and leaves them in the
range (`Reachable.blocks_apart`).
-/

namespace DuvuvurKernel

/-- A frame allocator in use. -/
structure Allocator where
  memoryManager : AllocMap
  /-- First frame and size of the blocks handed out and not freed. -/
  live : List (ℕ × ℕ)
  /-- First frame and size of the blocks given to `MarkAllocated`. -/
  marked : List (ℕ × ℕ)
  /-- `SetMemoryRange` has been called. -/
  rangeSet : Bool

/-- A frame of a block. -/
def InBlock (f : ℕ) (b : ℕ × ℕ) : Prop := b.1 ≤ f ∧ f < b.1 + b.2

instance (f : ℕ) (b : ℕ × ℕ) : Decidable (InBlock f b) := inferInstanceAs (Decidable (_ ∧ _))

/-- Blocks without a common frame. -/
def Apart (b c : ℕ × ℕ) : Prop := ∀ f, InBlock f b → ¬ InBlock f c

namespace Allocator

/-- A new allocator. -/
def initial : Allocator where
  memoryManager := .initial
  live := []
  marked := []
  rangeSet := false

/-- One call within the capacity of the bitmap. -/
inductive Step (a : Allocator) : Allocator → Prop where
  /-- `SetMemoryRange`, once. -/
  | setMemoryRange {rangeBegin rangeEnd : ℕ} (honce : a.rangeSet = false) (hcap : rangeEnd ≤ kFrameCount) :
    Step a ⟨a.memoryManager.setMemoryRange rangeBegin rangeEnd, a.live, a.marked, true⟩
  /-- `MarkAllocated`. -/
  | markAllocated {b : ℕ × ℕ} {m : AllocMap} (hcap : b.1 + b.2 ≤ kFrameCount)
    (hcall : a.memoryManager.markAllocated b.1 b.2 = some m) : Step a ⟨m, a.live, b :: a.marked, a.rangeSet⟩
  /-- `Allocate`. -/
  | allocate {n start : ℕ} {m : AllocMap} (hcall : a.memoryManager.allocate n = some (.ok start, m)) :
    Step a ⟨m, (start, n) :: a.live, a.marked, a.rangeSet⟩
  /-- An `Allocate` that fails. -/
  | allocateFails {n : ℕ} {err : Error} {m : AllocMap} (hcall : a.memoryManager.allocate n = some (.error err, m)) :
    Step a ⟨m, a.live, a.marked, a.rangeSet⟩
  /-- `Free` of a block handed out. -/
  | free {b : ℕ × ℕ} {m : AllocMap} (hlive : b ∈ a.live) (hcall : a.memoryManager.free b.1 b.2 = some m) :
    Step a ⟨m, a.live.erase b, a.marked, a.rangeSet⟩

/-- What every call has to be for the blocks handed out to stay as they are: none of their frames is marked,
and they stay in the range. -/
def Considerate (a a' : Allocator) : Prop :=
  ∀ b ∈ a.live, (∀ c ∈ a'.marked, c ∉ a.marked → Apart b c) ∧
    ∀ f, InBlock f b → a'.memoryManager.rangeBegin ≤ f ∧ f < a'.memoryManager.rangeEnd

/-- The blocks handed out do not overlap, lie in the range and contain no marked frame, and the bits are
those of the frames in them and of the marked frames. -/
structure Safe (a : Allocator) : Prop where
  apart : a.live.Pairwise Apart
  inRange : ∀ b ∈ a.live, ∀ f, InBlock f b → a.memoryManager.rangeBegin ≤ f ∧ f < a.memoryManager.rangeEnd
  unmarked : ∀ b ∈ a.live, ∀ c ∈ a.marked, Apart b c
  bits : ∀ f < kFrameCount, a.memoryManager.getBit f = some true ↔
    (∃ b ∈ a.live, InBlock f b) ∨ ∃ c ∈ a.marked, InBlock f c

/-- The allocators reached by calls that meet a condition. -/
inductive Reachable (cond : Allocator → Allocator → Prop) : Allocator → Prop where
  /-- A new allocator. -/
  | initial : Reachable cond initial
  /-- One call more. -/
  | step {a a' : Allocator} (ha : Reachable cond a) (hstep : Step a a') (hcond : cond a a') : Reachable cond a'

variable {a a' : Allocator} {m : AllocMap} {b : ℕ × ℕ} {n start : ℕ}

/-! ### What one call keeps -/

theorem Apart.symm {b c : ℕ × ℕ} (h : Apart b c) : Apart c b := fun f hc hb => h f hb hc

theorem getBit_iff {f : ℕ} (hf : f < kFrameCount) : m.getBit f = some true ↔ m.bit f = true := by
  rw [AllocMap.getBit_of_lt hf, Option.some.injEq]

/-- The range stays within the bitmap. -/
theorem Step.rangeEnd_le (h : Step a a') (hrange : a.memoryManager.rangeEnd ≤ kFrameCount) :
    a'.memoryManager.rangeEnd ≤ kFrameCount := by
  cases h with
  | setMemoryRange honce hcap => exact hcap
  | markAllocated hcap hcall =>
    obtain ⟨-, -, hend⟩ := AllocMap.setBits_some hcall
    exact hend ▸ hrange
  | allocate hcall =>
    obtain ⟨-, -, -, -, hend⟩ := AllocMap.allocate_ok hrange hcall
    exact hend ▸ hrange
  | allocateFails hcall => exact AllocMap.allocate_error hrange hcall ▸ hrange
  | free hlive hcall =>
    obtain ⟨-, -, hend⟩ := AllocMap.setBits_some hcall
    exact hend ▸ hrange

theorem Safe.setMemoryRange (h : Safe a) {rangeBegin rangeEnd : ℕ} {rangeSet : Bool}
    (hc : Considerate a ⟨a.memoryManager.setMemoryRange rangeBegin rangeEnd, a.live, a.marked, rangeSet⟩) :
    Safe ⟨a.memoryManager.setMemoryRange rangeBegin rangeEnd, a.live, a.marked, rangeSet⟩ :=
  ⟨h.apart, fun b hb => (hc b hb).2, h.unmarked, h.bits⟩

theorem Safe.markAllocated (h : Safe a) (hcall : a.memoryManager.markAllocated b.1 b.2 = some m)
    (hc : Considerate a ⟨m, a.live, b :: a.marked, a.rangeSet⟩) : Safe ⟨m, a.live, b :: a.marked, a.rangeSet⟩ := by
  obtain ⟨hbit, -, -⟩ := AllocMap.setBits_some hcall
  refine ⟨h.apart, fun c hc' => (hc c hc').2, fun c hlive d hd => ?_, fun f hf => ?_⟩
  · by_cases hold : d ∈ a.marked
    · exact h.unmarked c hlive d hold
    · exact (hc c hlive).1 d hd hold
  · have hbits := h.bits f hf
    rw [getBit_iff hf] at hbits ⊢
    rw [List.exists_mem_cons_iff]
    by_cases hin : InBlock f b
    · rw [(hbit f).trans (if_pos hin)]
      exact ⟨fun _ => Or.inr (Or.inl hin), fun _ => rfl⟩
    · rw [(hbit f).trans (if_neg hin), hbits]
      simp only [hin, false_or]

theorem Safe.allocate (h : Safe a) (hrange : a.memoryManager.rangeEnd ≤ kFrameCount)
    (hcall : a.memoryManager.allocate n = some (.ok start, m)) :
    Safe ⟨m, (start, n) :: a.live, a.marked, a.rangeSet⟩ := by
  obtain ⟨hfirst, hfree, hbit, hbegin, hend⟩ := AllocMap.allocate_ok hrange hcall
  -- the frames of the new block were free, and so in no other block and not marked
  have hclear : ∀ f, InBlock f (start, n) → ¬ ((∃ b ∈ a.live, InBlock f b) ∨ ∃ c ∈ a.marked, InBlock f c) := by
    intro f hf
    obtain ⟨hlt, hzero⟩ := hfree f hf.1 hf.2
    have hcap : f < kFrameCount := Nat.lt_of_lt_of_le hlt hrange
    rw [← h.bits f hcap, getBit_iff hcap, hzero]
    exact Bool.false_ne_true
  refine ⟨List.pairwise_cons.mpr ⟨fun b hb f hf hfb => ?_, h.apart⟩, fun b hb f hf => ?_, fun b hb c hc f hf hfc => ?_,
    fun f hf => ?_⟩
  · exact hclear f hf (Or.inl ⟨b, hb, hfb⟩)
  · rw [hbegin, hend]
    rcases List.mem_cons.mp hb with rfl | hb
    · exact ⟨Nat.le_trans hfirst hf.1, (hfree f hf.1 hf.2).1⟩
    · exact h.inRange b hb f hf
  · rcases List.mem_cons.mp hb with rfl | hb
    · exact hclear f hf (Or.inr ⟨c, hc, hfc⟩)
    · exact h.unmarked b hb c hc f hf hfc
  · have hbits := h.bits f hf
    rw [getBit_iff hf] at hbits ⊢
    rw [List.exists_mem_cons_iff, or_assoc, ← hbits]
    by_cases hin : InBlock f (start, n)
    · rw [(hbit f).trans (if_pos hin)]
      exact ⟨fun _ => Or.inl hin, fun _ => rfl⟩
    · rw [(hbit f).trans (if_neg hin)]
      simp only [hin, false_or]

theorem Safe.free (h : Safe a) (hlive : b ∈ a.live) (hcall : a.memoryManager.free b.1 b.2 = some m) :
    Safe ⟨m, a.live.erase b, a.marked, a.rangeSet⟩ := by
  obtain ⟨hbit, hbegin, hend⟩ := AllocMap.setBits_some hcall
  have hperm := List.perm_cons_erase hlive
  have hpair := (hperm.pairwise_iff Apart.symm).mp h.apart
  rw [List.pairwise_cons] at hpair
  have hmem : ∀ c ∈ a.live.erase b, c ∈ a.live := fun c hc => List.mem_of_mem_erase hc
  refine ⟨hpair.2, fun c hc f hf => ?_, fun c hc => h.unmarked c (hmem c hc), fun f hf => ?_⟩
  · rw [hbegin, hend]
    exact h.inRange c (hmem c hc) f hf
  · have hbits := h.bits f hf
    rw [getBit_iff hf] at hbits ⊢
    by_cases hin : InBlock f b
    · rw [(hbit f).trans (if_pos hin)]
      constructor
      · intro hfalse
        exact absurd hfalse Bool.false_ne_true
      · rintro (⟨c, hc, hfc⟩ | ⟨c, hc, hfc⟩)
        · exact absurd hfc (hpair.1 c hc f hin)
        · exact absurd hfc (h.unmarked b hlive c hc f hin)
    · rw [(hbit f).trans (if_neg hin), hbits]
      have hiff : (∃ c ∈ a.live, InBlock f c) ↔ ∃ c ∈ a.live.erase b, InBlock f c := by
        constructor
        · rintro ⟨c, hc, hfc⟩
          have hne : c ≠ b := fun he => hin (he ▸ hfc)
          exact ⟨c, (List.mem_erase_of_ne hne).mpr hc, hfc⟩
        · rintro ⟨c, hc, hfc⟩
          exact ⟨c, hmem c hc, hfc⟩
      rw [hiff]

theorem Step.safe (h : Step a a') (hrange : a.memoryManager.rangeEnd ≤ kFrameCount) (hs : Safe a)
    (hc : Considerate a a') : Safe a' := by
  cases h with
  | setMemoryRange honce hcap => exact hs.setMemoryRange hc
  | markAllocated hcap hcall => exact hs.markAllocated hcall hc
  | allocate hcall => exact hs.allocate hrange hcall
  | allocateFails hcall =>
    obtain rfl := AllocMap.allocate_error hrange hcall
    exact hs
  | free hlive hcall => exact hs.free hlive hcall

/-! ### Every run -/

theorem safe_initial : Safe initial := by
  refine ⟨List.Pairwise.nil, fun b hb => ?_, fun b hb => ?_, fun f hf => ?_⟩
  · cases hb
  · cases hb
  · rw [getBit_iff hf, initial, AllocMap.initial_bit]
    simp [Nat.not_le.mpr hf]

/-- **Considerate calls keep the blocks apart**, in the range and clear of the marked frames, and the bits
exact; and every `Allocate` is defined. -/
theorem Reachable.blocks_apart (h : Reachable Considerate a) :
    Safe a ∧ ∀ n, ∃ r m, a.memoryManager.allocate n = some (r, m) := by
  have hinv : Safe a ∧ a.memoryManager.rangeEnd ≤ kFrameCount := by
    induction h with
    | initial => exact ⟨safe_initial, Nat.le_refl _⟩
    | step ha hstep hcond ih => exact ⟨hstep.safe ih.2 ih.1 hcond, hstep.rangeEnd_le ih.2⟩
  refine ⟨hinv.1, fun n => ?_⟩
  obtain ⟨r, m, hcall, -⟩ := AllocMap.allocate_toBitmap hinv.2 (n := n)
  exact ⟨r, m, hcall⟩

/-- Two frames marked, and a block of four handed out. -/
theorem blocks_apart_example : ∃ a : Allocator, a.live = [(3, 4)] ∧ a.marked = [(1, 2)] ∧
    Safe a ∧ ∀ n, ∃ r m, a.memoryManager.allocate n = some (r, m) := by
  have hnone : ∀ a a' : Allocator, a.live = [] → Considerate a a' := by
    intro a a' hempty b hb
    rw [hempty] at hb
    cases hb
  have h1 : Reachable Considerate _ := .step .initial
    (@Step.setMemoryRange _ 1 8 rfl (by decide)) (hnone _ _ rfl)
  have h2 : Reachable Considerate _ := .step h1 (.markAllocated (b := (1, 2)) (by decide) rfl) (hnone _ _ rfl)
  have h3 : Reachable Considerate _ := .step h2 (@Step.allocate _ 4 3 _ rfl) (hnone _ _ rfl)
  exact ⟨_, rfl, rfl, h3.blocks_apart⟩

/-- `MarkAllocated` of a frame that is handed out, and `SetMemoryRange` of a range without it. -/
theorem blocks_not_apart :
    (∃ a, Reachable (fun _ _ => True) a ∧ ∃ b ∈ a.live, ∃ c ∈ a.marked, ∃ f, InBlock f b ∧ InBlock f c) ∧
    ∃ a, Reachable (fun _ _ => True) a ∧ ∃ b ∈ a.live, ∃ f, InBlock f b ∧ ¬ a.memoryManager.rangeBegin ≤ f := by
  have h1 : Reachable (fun _ _ => True) _ := .step .initial (@Step.allocate _ 1 0 _ rfl) trivial
  constructor
  · have h2 : Reachable (fun _ _ => True) _ := .step h1 (.markAllocated (b := (0, 1)) (by decide) rfl) trivial
    exact ⟨_, h2, (0, 1), List.mem_cons_self, (0, 1), List.mem_cons_self, 0, by decide, by decide⟩
  · have h2 : Reachable (fun _ _ => True) _ := .step h1
      (@Step.setMemoryRange _ 1 2 rfl (by decide)) trivial
    exact ⟨_, h2, (0, 1), List.mem_cons_self, 0, by decide, by decide⟩

end Allocator

end DuvuvurKernel
