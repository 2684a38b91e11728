import DuvuvurKernel.Error
import Mathlib.Algebra.Group.Nat.Defs
import Mathlib.Data.Nat.Notation
import Mathlib.Logic.Function.Basic

/-!
# The frame allocator

`BitmapMemoryManager`. Its array `alloc_map_` of 64-bit lines holds one bit for each
frame, which `GetBit` and `SetBit` read and write; the model has the bits themselves,
and so none of the look-ups past the capacity of the array.

`allocate_one` says what the paging code needs of `Allocate`: a single frame.
-/

namespace DuvuvurKernel

/-- `BitmapMemoryManager`. -/
structure BitmapMemoryManager where
  /-- The bits of `alloc_map_`: the frame is allocated. -/
  getBit : ℕ → Bool
  /-- `range_begin_`. -/
  rangeBegin : ℕ
  /-- `range_end_`. -/
  rangeEnd : ℕ
  /-- Physical addresses have 52 bits. -/
  rangeEnd_le : rangeEnd ≤ 2 ^ 40

namespace BitmapMemoryManager

/-- `SetBit`. -/
def setBit (m : BitmapMemoryManager) (frame : ℕ) (allocated : Bool) : BitmapMemoryManager :=
  { m with getBit := Function.update m.getBit frame allocated }

/-- `MarkAllocated`. -/
def markAllocated (m : BitmapMemoryManager) (startFrame : ℕ) : ℕ → BitmapMemoryManager
  | 0 => m
  | n + 1 => (m.markAllocated startFrame n).setBit (startFrame + n) true

/-- `Free`, which never fails. -/
def free (m : BitmapMemoryManager) (startFrame : ℕ) : ℕ → BitmapMemoryManager
  | 0 => m
  | n + 1 => (m.free startFrame n).setBit (startFrame + n) false

/-- The inner loop of `Allocate`, with `k` frames left to look at: the number of the frames found free,
or `none` past the end of the range. -/
def countFree (m : BitmapMemoryManager) (startFrameID : ℕ) : ℕ → ℕ → Option ℕ
  | 0, i => some i
  | k + 1, i =>
    if m.rangeEnd ≤ startFrameID + i then none
    else if m.getBit (startFrameID + i) then some i
    else m.countFree startFrameID k (i + 1)

/-- The outer loop of `Allocate`: the first frame of the block. It ends at the latest at the end of the
range. -/
def findFree (m : BitmapMemoryManager) (numFrames : ℕ) : ℕ → ℕ → Option ℕ
  | 0, _ => none
  | fuel + 1, startFrameID =>
    match m.countFree startFrameID numFrames 0 with
    | none => none
    | some i => if i = numFrames then some startFrameID else m.findFree numFrames fuel (startFrameID + (i + 1))

/-- `Allocate`. -/
def allocate (m : BitmapMemoryManager) (numFrames : ℕ) : Except Error ℕ × BitmapMemoryManager :=
  match m.findFree numFrames (m.rangeEnd - m.rangeBegin + 1) m.rangeBegin with
  | none => (.error .noEnoughMemory, m)
  | some startFrameID => (.ok startFrameID, m.markAllocated startFrameID numFrames)

variable {m : BitmapMemoryManager}

/-- A frame that `Allocate` can return. -/
def IsFree (m : BitmapMemoryManager) (frame : ℕ) : Prop :=
  (m.rangeBegin ≤ frame ∧ frame < m.rangeEnd) ∧ m.getBit frame = false

@[simp] theorem setBit_getBit (frame : ℕ) (allocated : Bool) :
    (m.setBit frame allocated).getBit = Function.update m.getBit frame allocated := rfl

/-- The bits of a block of frames, all set alike. -/
def withBlock (m : BitmapMemoryManager) (startFrame n : ℕ) (allocated : Bool) : BitmapMemoryManager :=
  { m with getBit := fun g => if startFrame ≤ g ∧ g < startFrame + n then allocated else m.getBit g }

theorem withBlock_succ (startFrame n : ℕ) (allocated : Bool) :
    (m.withBlock startFrame n allocated).setBit (startFrame + n) allocated =
    m.withBlock startFrame (n + 1) allocated := by
  have hbits : Function.update (m.withBlock startFrame n allocated).getBit (startFrame + n) allocated =
      (m.withBlock startFrame (n + 1) allocated).getBit := by
    funext g
    dsimp only [withBlock]
    by_cases hg : g = startFrame + n
    · rw [hg, Function.update_self, if_pos (by omega)]
    · rw [Function.update_of_ne hg]
      have hiff : (startFrame ≤ g ∧ g < startFrame + n) ↔ (startFrame ≤ g ∧ g < startFrame + (n + 1)) := by omega
      simp only [hiff]
  rw [setBit, hbits]
  rfl

theorem withBlock_zero (startFrame : ℕ) (allocated : Bool) : m.withBlock startFrame 0 allocated = m := by
  have hbits : (fun g => if startFrame ≤ g ∧ g < startFrame + 0 then allocated else m.getBit g) = m.getBit := by
    funext g
    exact if_neg (by omega)
  rw [withBlock, hbits]

theorem markAllocated_eq (startFrame n : ℕ) : m.markAllocated startFrame n = m.withBlock startFrame n true := by
  induction n with
  | zero => exact (withBlock_zero startFrame true).symm
  | succ n ih => rw [markAllocated, ih, withBlock_succ]

theorem free_eq (startFrame n : ℕ) : m.free startFrame n = m.withBlock startFrame n false := by
  induction n with
  | zero => exact (withBlock_zero startFrame false).symm
  | succ n ih => rw [free, ih, withBlock_succ]

@[simp] theorem free_one (frame : ℕ) : m.free frame 1 = m.setBit frame false := rfl

/-- The search for a single frame. -/
theorem findFree_one {fuel start : ℕ} (hf : m.rangeEnd - start < fuel) :
    (∃ frame, m.findFree 1 fuel start = some frame ∧ start ≤ frame ∧ frame < m.rangeEnd ∧ m.getBit frame = false) ∨
    (m.findFree 1 fuel start = none ∧ ∀ frame, start ≤ frame → frame < m.rangeEnd → m.getBit frame = true) := by
  induction fuel generalizing start with
  | zero => exact absurd hf (Nat.not_lt_zero _)
  | succ fuel ih =>
    simp only [findFree, countFree, Nat.add_zero, Nat.zero_add]
    by_cases hend : m.rangeEnd ≤ start
    · right
      rw [if_pos hend]
      exact ⟨rfl, fun frame h1 h2 => by omega⟩
    · rw [if_neg hend]
      cases hbit : m.getBit start with
      | false =>
        left
        exact ⟨start, by simp, Nat.le_refl _, Nat.not_le.mp hend, hbit⟩
      | true =>
        simp only [if_true, Nat.zero_ne_one, if_false]
        rcases ih (show m.rangeEnd - (start + 1) < fuel by omega) with ⟨frame, h1, h2, h3⟩ | ⟨h1, h2⟩
        · exact Or.inl ⟨frame, h1, by omega, h3⟩
        · refine Or.inr ⟨h1, fun frame h3 h4 => ?_⟩
          rcases Nat.lt_or_eq_of_le h3 with hlt | rfl
          · exact h2 frame hlt h4
          · exact hbit

/-- **`Allocate`** of a single frame takes a free one, or fails if there is none. -/
theorem allocate_one (m : BitmapMemoryManager) :
    (∃ frame, m.allocate 1 = (.ok frame, m.setBit frame true) ∧ m.IsFree frame) ∨
    (m.allocate 1 = (.error .noEnoughMemory, m) ∧ ∀ frame, ¬ m.IsFree frame) := by
  rcases findFree_one (m := m) (Nat.lt_succ_self (m.rangeEnd - m.rangeBegin)) with ⟨frame, h1, h2, h3, h4⟩ | ⟨h1, h2⟩
  · left
    refine ⟨frame, ?_, ⟨h2, h3⟩, h4⟩
    rw [allocate, h1]
    rfl
  · right
    refine ⟨by rw [allocate, h1], ?_⟩
    rintro frame ⟨⟨h3, h4⟩, h5⟩
    rw [h2 frame h3 h4] at h5
    cases h5

end BitmapMemoryManager

end DuvuvurKernel
