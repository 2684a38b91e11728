import DuvuvurKernel.Lib.Loops
import DuvuvurKernel.Memory.AllocMap

/-!
# First fit

The search of `Allocate`, a loop that ends only when it returns: each round looks at the
frames from `start_frame_id` on, and the next starts behind the first occupied one. What a
round skips cannot be the start of a free block (`searchRound_spec`), and so the block
that is found is the first.

**Result** (`first_fit`): in a range within the bitmap `Allocate` returns the first block of
free frames, and sets its bits, or finds that there is none, and changes nothing.
-/

namespace DuvuvurKernel.AllocMap

open Lib.Loops

/-- A round of the outer loop of `Allocate`: the first frame of the block, or `none` past the end of the range. -/
def searchRound (m : AllocMap) (numFrames startFrameID : ℕ) : Option (Next ℕ (Option ℕ)) :=
  (m.countFree startFrameID numFrames 0).bind fun
  | none => some (.done none)
  | some i => if i = numFrames then some (.done (some startFrameID)) else some (.goOn (startFrameID + (i + 1)))

/-- `Allocate` returns. -/
def AllocateReturns (m : AllocMap) (numFrames : ℕ) (r : Except Error ℕ) (m' : AllocMap) : Prop :=
  ∃ found, Returns (m.searchRound numFrames) m.rangeBegin found ∧
    match found with
    | none => r = .error .noEnoughMemory ∧ m' = m
    | some startFrameID => r = .ok startFrameID ∧ m.markAllocated startFrameID numFrames = some m'

/-- A block of clear frames before the end of the range. -/
def FreeBlock (m : AllocMap) (start n : ℕ) : Prop :=
  start + n ≤ m.rangeEnd ∧ ∀ g, start ≤ g → g < start + n → m.getBit g = some false

variable {m m' : AllocMap} {start n : ℕ}

theorem freeBlock_iff (hrange : m.rangeEnd ≤ kFrameCount) :
    m.FreeBlock start n ↔ start + n ≤ m.rangeEnd ∧ ∀ g, start ≤ g → g < start + n → m.bit g = false := by
  refine and_congr_right fun hend => forall_congr' fun g => forall_congr' fun _ => forall_congr' fun hlt => ?_
  rw [getBit_of_lt (by omega), Option.some.injEq]

/-- **A round** finds a block, or that no block starts from here on, or goes on behind an occupied frame, which is
in every block that it skips. -/
theorem searchRound_spec (hrange : m.rangeEnd ≤ kFrameCount) (hn : 0 < n) (start : ℕ) :
    (m.searchRound n start = some (.done none) ∧ ∀ s, start ≤ s → ¬ m.FreeBlock s n) ∨
    (m.searchRound n start = some (.done (some start)) ∧ m.FreeBlock start n) ∨
    ∃ next, m.searchRound n start = some (.goOn next) ∧ start < next ∧ next ≤ m.rangeEnd ∧
      ∀ s, start ≤ s → s < next → ¬ m.FreeBlock s n := by
  rcases countFree_spec hrange start n 0 with ⟨h1, j, -, hj, hend⟩ | ⟨r, h1, -, hr, hfree, hbit⟩
  · refine .inl ⟨by rw [searchRound, h1]; rfl, fun s hs hblock => ?_⟩
    have hfits := hblock.1
    omega
  · by_cases hall : r = n
    · subst hall
      refine .inr (.inl ⟨by simp [searchRound, h1], (freeBlock_iff hrange).mpr ⟨?_, fun g hg hlt => ?_⟩⟩)
      · have hlast := (hfree (r - 1) (Nat.zero_le _) (by omega)).1
        omega
      · have hclear := (hfree (g - start) (Nat.zero_le _) (by omega)).2
        rwa [Nat.add_sub_cancel' hg] at hclear
    · obtain ⟨hlt, hset⟩ := hbit (by omega)
      refine .inr (.inr ⟨start + (r + 1), by simp [searchRound, h1, hall], by omega, by omega,
        fun s hs hnext hblock => ?_⟩)
      have hclear := ((freeBlock_iff hrange).mp hblock).2 (start + r) (by omega) (by omega)
      rw [hset] at hclear
      cases hclear

theorem findFree_succ (fuel start : ℕ) : m.findFree n (fuel + 1) start =
    (m.searchRound n start).bind fun
    | .done found => some found
    | .goOn next => m.findFree n fuel next := by
  unfold searchRound
  rw [findFree]
  cases m.countFree start n 0 with
  | none => rfl
  | some counted =>
    cases counted with
    | none => rfl
    | some i =>
      dsimp only [Option.bind_some]
      split
      · rfl
      · rfl

/-- What the search finds. -/
def Finds (m : AllocMap) (start n : ℕ) (found : Option ℕ) : Prop :=
  match found with
  | none => ∀ s, start ≤ s → ¬ m.FreeBlock s n
  | some s => start ≤ s ∧ m.FreeBlock s n ∧ ∀ t, start ≤ t → m.FreeBlock t n → s ≤ t

/-- A search from further on, when no block starts before. -/
theorem Finds.of_skipped {next : ℕ} {found : Option ℕ} (h : m.Finds next n found) (hle : start ≤ next)
    (hskip : ∀ s, start ≤ s → s < next → ¬ m.FreeBlock s n) : m.Finds start n found := by
  have hlater : ∀ t, start ≤ t → m.FreeBlock t n → next ≤ t :=
    fun t ht hblock => Nat.le_of_not_lt fun hlt => hskip t ht hlt hblock
  cases found with
  | none => exact fun t ht hblock => h t (hlater t ht hblock) hblock
  | some s => exact ⟨Nat.le_trans hle h.1, h.2.1, fun t ht hblock => h.2.2 t (hlater t ht hblock) hblock⟩

/-- **The search ends**, and finds the first block; `findFree` finds the same. -/
theorem search_returns (hrange : m.rangeEnd ≤ kFrameCount) (hn : 0 < n) {fuel : ℕ} (hfuel : m.rangeEnd - start < fuel) :
    ∃ found, Returns (m.searchRound n) start found ∧ m.findFree n fuel start = some found ∧ m.Finds start n found := by
  induction fuel generalizing start with
  | zero => exact absurd hfuel (Nat.not_lt_zero _)
  | succ fuel ih =>
    rw [findFree_succ]
    rcases searchRound_spec hrange hn start with ⟨h1, hnone⟩ | ⟨h1, hblock⟩ | ⟨next, h1, hlt, hle, hskip⟩
    · exact ⟨none, .done h1, by rw [h1]; rfl, hnone⟩
    · exact ⟨some start, .done h1, by rw [h1]; rfl, Nat.le_refl _, hblock, fun t ht _ => ht⟩
    · obtain ⟨found, h2, h3, h4⟩ := ih (show m.rangeEnd - next < fuel by omega)
      exact ⟨found, .goOn h1 h2, by rw [h1]; exact h3, h4.of_skipped (Nat.le_of_lt hlt) hskip⟩

/-- `Allocate` fails, or takes the first block. -/
theorem allocate_first (hrange : m.rangeEnd ≤ kFrameCount) (hn : 0 < n) :
    (m.allocate n = some (.error .noEnoughMemory, m) ∧ Returns (m.searchRound n) m.rangeBegin none ∧
      ∀ s, m.rangeBegin ≤ s → ¬ m.FreeBlock s n) ∨
    ∃ s m', m.allocate n = some (.ok s, m') ∧ Returns (m.searchRound n) m.rangeBegin (some s) ∧
      m.markAllocated s n = some m' ∧
      m.Finds m.rangeBegin n (some s) ∧ (∀ g, m'.bit g = if s ≤ g ∧ g < s + n then true else m.bit g) ∧
      m'.rangeBegin = m.rangeBegin ∧ m'.rangeEnd = m.rangeEnd := by
  obtain ⟨found, hreturns, hfind, hfinds⟩ := search_returns hrange hn (Nat.lt_succ_self (m.rangeEnd - m.rangeBegin))
  cases found with
  | none => exact .inl ⟨by rw [allocate, hfind]; rfl, hreturns, hfinds⟩
  | some s =>
    have hfits := hfinds.2.1.1
    obtain ⟨m', h1, hbit, h2, h3⟩ := m.setBits_of_le true (show s + n ≤ kFrameCount by omega)
    have hmark : m.markAllocated s n = some m' := h1
    exact .inr ⟨s, m', by simp [allocate, hfind, hmark], hreturns, hmark, hfinds, hbit, h2, h3⟩

/-- **First fit**: `Allocate` returns. If there is a block of free frames in the range, it returns the first one, whose
bits alone it has set; if there is none, it fails and has changed nothing. -/
theorem first_fit (hrange : m.rangeEnd ≤ kFrameCount) (hn : 1 ≤ n) :
    ∃ r m', m.AllocateReturns n r m' ∧ m.allocate n = some (r, m') ∧ m'.rangeBegin = m.rangeBegin ∧
      m'.rangeEnd = m.rangeEnd ∧ ((∃ s, m.rangeBegin ≤ s ∧ m.FreeBlock s n) →
        ∃ s, r = .ok s ∧ m.rangeBegin ≤ s ∧ m.FreeBlock s n ∧ (∀ t, m.rangeBegin ≤ t → m.FreeBlock t n → s ≤ t) ∧
          ∀ g, m'.getBit g = if s ≤ g ∧ g < s + n then some true else m.getBit g) ∧
      ((∀ s, m.rangeBegin ≤ s → ¬ m.FreeBlock s n) → r = .error .noEnoughMemory ∧ m' = m) := by
  rcases allocate_first hrange hn with
    ⟨h1, hreturns, hnone⟩ | ⟨s, m', h1, hreturns, hmark, ⟨hbegin, hblock, hfirst⟩, hbit, h2, h3⟩
  · refine ⟨.error .noEnoughMemory, m, ⟨none, hreturns, rfl, rfl⟩, h1, rfl, rfl, ?_, fun _ => ⟨rfl, rfl⟩⟩
    rintro ⟨s, hs, hblock⟩
    exact absurd hblock (hnone s hs)
  · have hfits := hblock.1
    refine ⟨.ok s, m', ⟨some s, hreturns, rfl, hmark⟩, h1, h2, h3,
      fun _ => ⟨s, rfl, hbegin, hblock, hfirst, fun g => ?_⟩, fun hnone => absurd hblock (hnone s hbegin)⟩
    rcases Nat.lt_or_ge g kFrameCount with hlt | hge
    · rw [getBit_of_lt hlt, getBit_of_lt hlt, hbit]
      split
      · rfl
      · rfl
    · rw [getBit_of_le hge, getBit_of_le hge, if_neg (by omega)]

/-- Two frames of a new allocator. -/
theorem first_fit_example : ∃ m', (initial.setMemoryRange 1 8).AllocateReturns 2 (.ok 1) m' ∧
    m'.getBit 2 = some true := by
  have hclear : ∀ g, g < 8 → initial.getBit g = some false := by
    intro g hg
    have hlt : g < kFrameCount := Nat.lt_trans hg (by decide)
    have hbit : initial.bit g = false :=
      Bool.eq_false_iff.mpr fun hset => absurd ((initial_bit g).mp hset) (Nat.not_le.mpr hlt)
    rw [getBit_of_lt hlt, hbit]
  have hblock : (initial.setMemoryRange 1 8).FreeBlock 1 2 := ⟨by decide, fun g _ hlt => hclear g (by omega)⟩
  obtain ⟨r, m', h1, -, -, -, hfound, -⟩ := first_fit (m := initial.setMemoryRange 1 8) (n := 2) (by decide) (by decide)
  obtain ⟨s, rfl, hbegin, -, hfirst, hbit⟩ := hfound ⟨1, Nat.le_refl _, hblock⟩
  obtain rfl : s = 1 := Nat.le_antisymm (hfirst 1 (Nat.le_refl _) hblock) hbegin
  exact ⟨m', h1, (hbit 2).trans (if_pos (by decide))⟩

end DuvuvurKernel.AllocMap
