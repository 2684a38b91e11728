import DuvuvurKernel.Memory.BitmapMemoryManager

/-!
# The lines of the bitmap

`BitmapMemoryManager` with its array `alloc_map_` as it is in the source: 64 bits to a
line, `GetBit` and `SetBit` computing the line and the bit of a frame. A look-up outside
of the array is undefined, and so is every operation that makes one.

As long as the range ends within the bitmap, the operations that are defined do to the
bits what `BitmapMemoryManager` says (`allocate_bits`, `free_bits`, `markAllocated_bits`),
and `Allocate` is always defined.
-/

namespace DuvuvurKernel

/-- `kFrameCount`: 128 GiB in frames of 4 KiB. -/
def kFrameCount : ℕ := 2 ^ 25

/-- `kBitsPerMapLine`. -/
def kBitsPerMapLine : ℕ := 64

/-- The number of lines of `alloc_map_`. -/
def mapLines : ℕ := kFrameCount / kBitsPerMapLine

/-- `BitmapMemoryManager`, with its lines. -/
structure AllocMap where
  /-- `alloc_map_`. -/
  allocMap : Fin mapLines → BitVec 64
  /-- `range_begin_`. -/
  rangeBegin : ℕ
  /-- `range_end_`. -/
  rangeEnd : ℕ

namespace AllocMap

/-- The constructor. -/
def initial : AllocMap where
  allocMap := fun _ => 0
  rangeBegin := 0
  rangeEnd := kFrameCount

/-- The bit of a frame in its line. -/
def mask (frame : ℕ) : BitVec 64 := 1#64 <<< (frame % kBitsPerMapLine)

/-- `GetBit`. -/
def getBit (m : AllocMap) (frame : ℕ) : Option Bool :=
  if h : frame / kBitsPerMapLine < mapLines then
    some ((m.allocMap ⟨frame / kBitsPerMapLine, h⟩ &&& mask frame) != 0)
  else none

/-- `SetBit`. -/
def setBit (m : AllocMap) (frame : ℕ) (allocated : Bool) : Option AllocMap :=
  if h : frame / kBitsPerMapLine < mapLines then
    let line := m.allocMap ⟨frame / kBitsPerMapLine, h⟩
    some { m with
      allocMap := Function.update m.allocMap ⟨frame / kBitsPerMapLine, h⟩
        (if allocated then line ||| mask frame else line &&& ~~~mask frame) }
  else none

/-- The loop of `MarkAllocated` and of `Free`. -/
def setBits (m : AllocMap) (startFrame : ℕ) (allocated : Bool) : ℕ → Option AllocMap
  | 0 => some m
  | n + 1 => (m.setBits startFrame allocated n).bind fun m => m.setBit (startFrame + n) allocated

/-- `MarkAllocated`. -/
def markAllocated (m : AllocMap) (startFrame numFrames : ℕ) : Option AllocMap := m.setBits startFrame true numFrames

/-- `Free`, which never fails. -/
def free (m : AllocMap) (startFrame numFrames : ℕ) : Option AllocMap := m.setBits startFrame false numFrames

/-- `SetMemoryRange`. -/
def setMemoryRange (m : AllocMap) (rangeBegin rangeEnd : ℕ) : AllocMap :=
  { m with rangeBegin := rangeBegin, rangeEnd := rangeEnd }

/-- The inner loop of `Allocate`, with `k` frames left to look at: the number of the frames found free,
or `none` past the end of the range. -/
def countFree (m : AllocMap) (startFrameID : ℕ) : ℕ → ℕ → Option (Option ℕ)
  | 0, i => some (some i)
  | k + 1, i =>
    if m.rangeEnd ≤ startFrameID + i then some none
    else (m.getBit (startFrameID + i)).bind fun bit =>
      if bit then some (some i) else m.countFree startFrameID k (i + 1)

/-- The outer loop of `Allocate`: the first frame of the block. -/
def findFree (m : AllocMap) (numFrames : ℕ) : ℕ → ℕ → Option (Option ℕ)
  | 0, _ => some none
  | fuel + 1, startFrameID => (m.countFree startFrameID numFrames 0).bind fun
    | none => some none
    | some i => if i = numFrames then some (some startFrameID) else m.findFree numFrames fuel (startFrameID + (i + 1))

/-- `Allocate`. -/
def allocate (m : AllocMap) (numFrames : ℕ) : Option (Except Error ℕ × AllocMap) :=
  (m.findFree numFrames (m.rangeEnd - m.rangeBegin + 1) m.rangeBegin).bind fun
  | none => some (.error .noEnoughMemory, m)
  | some startFrameID => (m.markAllocated startFrameID numFrames).map fun m => (.ok startFrameID, m)

variable {m m' : AllocMap} {frame start n : ℕ} {allocated : Bool}

/-! ### The line and the bit of a frame -/

theorem line_lt : frame / kBitsPerMapLine < mapLines ↔ frame < kFrameCount := by
  unfold mapLines kFrameCount kBitsPerMapLine
  omega

theorem mod_lt : frame % kBitsPerMapLine < 64 := Nat.mod_lt _ (by decide)

theorem mask_eq : mask frame = BitVec.twoPow 64 (frame % kBitsPerMapLine) := rfl

/-- The bits as a function of the frame; frames outside of the bitmap count as allocated. -/
def bit (m : AllocMap) (frame : ℕ) : Bool := (m.getBit frame).getD true

theorem getBit_of_lt (h : frame < kFrameCount) : m.getBit frame = some (m.bit frame) := by
  rw [bit, getBit, dif_pos (line_lt.mpr h)]
  rfl

theorem getBit_of_le (h : kFrameCount ≤ frame) : m.getBit frame = none :=
  dif_neg fun hlt => absurd (line_lt.mp hlt) (Nat.not_lt.mpr h)

theorem bit_eq (h : frame / kBitsPerMapLine < mapLines) :
    m.bit frame = (m.allocMap ⟨frame / kBitsPerMapLine, h⟩).getLsbD (frame % kBitsPerMapLine) := by
  rw [bit, getBit, dif_pos h, Option.getD_some, mask_eq, BitVec.and_twoPow]
  cases hbit : (m.allocMap ⟨frame / kBitsPerMapLine, h⟩).getLsbD (frame % kBitsPerMapLine) with
  | false => rfl
  | true =>
    rw [if_pos rfl, bne_iff_ne]
    intro hzero
    have hself : (BitVec.twoPow 64 (frame % kBitsPerMapLine)).getLsbD (frame % kBitsPerMapLine) = true := by
      rw [BitVec.getLsbD_twoPow, decide_eq_true mod_lt]
      simp
    rw [hzero] at hself
    simp at hself

theorem initial_bit (f : ℕ) : initial.bit f = true ↔ kFrameCount ≤ f := by
  rcases Nat.lt_or_ge f kFrameCount with hlt | hge
  · rw [bit_eq (line_lt.mpr hlt)]
    simp [initial, Nat.not_le.mpr hlt]
  · simp [bit, getBit_of_le hge, hge]

/-- What `SetBit` does to a line. -/
theorem getLsbD_setLine {line : BitVec 64} {k : ℕ} (hk : k < 64) :
    (if allocated then line ||| mask frame else line &&& ~~~mask frame).getLsbD k =
      if k = frame % kBitsPerMapLine then allocated else line.getLsbD k := by
  have hmask : (mask frame).getLsbD k = decide (frame % kBitsPerMapLine = k) := by
    rw [mask_eq, BitVec.getLsbD_twoPow, decide_eq_true mod_lt, Bool.true_and]
  cases allocated with
  | true =>
    rw [if_pos rfl, BitVec.getLsbD_or, hmask]
    by_cases h : k = frame % kBitsPerMapLine
    · simp [h]
    · simp [h, Ne.symm h]
  | false =>
    rw [if_neg Bool.false_ne_true, BitVec.getLsbD_and, BitVec.getLsbD_not, hmask, decide_eq_true hk]
    by_cases h : k = frame % kBitsPerMapLine
    · simp [h]
    · simp [h, Ne.symm h]

/-- `SetBit` is defined within the bitmap, and sets the bit of the frame only. -/
theorem setBit_of_lt (m : AllocMap) (allocated : Bool) (h : frame < kFrameCount) :
    ∃ m', m.setBit frame allocated = some m' ∧
    m'.bit = Function.update m.bit frame allocated ∧ m'.rangeBegin = m.rangeBegin ∧ m'.rangeEnd = m.rangeEnd := by
  have hline := line_lt.mpr h
  rw [setBit, dif_pos hline]
  refine ⟨_, rfl, ?_, rfl, rfl⟩
  funext g
  by_cases hg : g / kBitsPerMapLine < mapLines
  · rw [bit_eq hg]
    by_cases hsame : g / kBitsPerMapLine = frame / kBitsPerMapLine
    · have hfin : (⟨g / kBitsPerMapLine, hg⟩ : Fin mapLines) = ⟨frame / kBitsPerMapLine, hline⟩ := Fin.ext hsame
      dsimp only
      rw [hfin, Function.update_self, getLsbD_setLine mod_lt]
      by_cases hmod : g % kBitsPerMapLine = frame % kBitsPerMapLine
      · have hgf : g = frame := by
          rw [← Nat.div_add_mod g kBitsPerMapLine, hsame, hmod, Nat.div_add_mod]
        rw [if_pos hmod, hgf, Function.update_self]
      · have hgf : g ≠ frame := fun he => hmod (by rw [he])
        rw [if_neg hmod, Function.update_of_ne hgf, bit_eq hg, hfin]
    · have hfin : (⟨g / kBitsPerMapLine, hg⟩ : Fin mapLines) ≠ ⟨frame / kBitsPerMapLine, hline⟩ :=
        fun he => hsame (Fin.mk.inj he)
      have hgf : g ≠ frame := fun he => hsame (by rw [he])
      dsimp only
      rw [Function.update_of_ne hfin, Function.update_of_ne hgf, bit_eq hg]
  · have hgf : g ≠ frame := fun he => hg (he ▸ hline)
    rw [Function.update_of_ne hgf, bit, bit, getBit, getBit, dif_neg hg, dif_neg hg]

theorem setBit_of_le (h : kFrameCount ≤ frame) : m.setBit frame allocated = none :=
  dif_neg fun hlt => absurd (line_lt.mp hlt) (Nat.not_lt.mpr h)

/-! ### Blocks of frames -/

/-- Setting the bits of a block within the bitmap. -/
theorem setBits_of_le (m : AllocMap) (allocated : Bool) (h : start + n ≤ kFrameCount) :
    ∃ m', m.setBits start allocated n = some m' ∧
      (∀ g, m'.bit g = if start ≤ g ∧ g < start + n then allocated else m.bit g) ∧
    m'.rangeBegin = m.rangeBegin ∧ m'.rangeEnd = m.rangeEnd := by
  induction n with
  | zero => exact ⟨m, rfl, fun g => by rw [if_neg (by omega)], rfl, rfl⟩
  | succ n ih =>
    obtain ⟨m₁, h1, hbit, hbegin, hend⟩ := ih (by omega)
    obtain ⟨m₂, h2, hbit', hbegin', hend'⟩ := m₁.setBit_of_lt allocated (show start + n < kFrameCount by omega)
    refine ⟨m₂, ?_, fun g => ?_, by rw [hbegin', hbegin], by rw [hend', hend]⟩
    · rw [setBits, h1, Option.bind_some, h2]
    · rw [hbit']
      by_cases hg : g = start + n
      · rw [hg, Function.update_self, if_pos (by omega)]
      · rw [Function.update_of_ne hg, hbit]
        have hiff : (start ≤ g ∧ g < start + n) ↔ (start ≤ g ∧ g < start + (n + 1)) := by omega
        simp only [hiff]

/-- Setting bits beyond the bitmap is undefined. -/
theorem setBits_of_lt (hn : n ≠ 0) (h : kFrameCount < start + n) : m.setBits start allocated n = none := by
  cases n with
  | zero => exact absurd rfl hn
  | succ n =>
    rw [setBits]
    by_cases hlast : kFrameCount ≤ start + n
    · cases m.setBits start allocated n with
      | none => rfl
      | some m₁ => exact setBit_of_le hlast
    · exact absurd h (by omega)

/-- What setting the bits of a block does, if it is defined. -/
theorem setBits_some {m' : AllocMap} (h : m.setBits start allocated n = some m') :
    (∀ g, m'.bit g = if start ≤ g ∧ g < start + n then allocated else m.bit g) ∧
    m'.rangeBegin = m.rangeBegin ∧ m'.rangeEnd = m.rangeEnd := by
  by_cases hle : n = 0 ∨ start + n ≤ kFrameCount
  · rcases hle with rfl | hle
    · cases h
      exact ⟨fun g => by rw [if_neg (by omega)], rfl, rfl⟩
    · obtain ⟨m₁, h1, h2⟩ := m.setBits_of_le allocated hle
      rw [h1] at h
      cases h
      exact h2
  · rw [not_or, Nat.not_le] at hle
    rw [setBits_of_lt hle.1 hle.2] at h
    cases h

/-! ### The search -/

/-- The inner loop, in a range within the bitmap. -/
theorem countFree_spec (hrange : m.rangeEnd ≤ kFrameCount) (start k i : ℕ) :
    (m.countFree start k i = some none ∧ ∃ j, i ≤ j ∧ j < i + k ∧ m.rangeEnd ≤ start + j) ∨
    ∃ r, m.countFree start k i = some (some r) ∧ i ≤ r ∧ r ≤ i + k ∧
      (∀ j, i ≤ j → j < r → start + j < m.rangeEnd ∧ m.bit (start + j) = false) ∧
      (r < i + k → start + r < m.rangeEnd ∧ m.bit (start + r) = true) := by
  induction k generalizing i with
  | zero => exact Or.inr ⟨i, rfl, Nat.le_refl _, Nat.le_refl _, fun j h1 h2 => by omega, fun h => by omega⟩
  | succ k ih =>
    unfold countFree
    by_cases hend : m.rangeEnd ≤ start + i
    · rw [if_pos hend]
      exact Or.inl ⟨rfl, i, Nat.le_refl _, by omega, hend⟩
    · rw [if_neg hend, getBit_of_lt (by omega), Option.bind_some]
      cases hbit : m.bit (start + i) with
      | true => exact Or.inr ⟨i, rfl, Nat.le_refl _, by omega, fun j h1 h2 => by omega, fun _ => ⟨by omega, hbit⟩⟩
      | false =>
        rw [if_neg Bool.false_ne_true]
        rcases ih (i + 1) with ⟨h1, j, h2, h3, h4⟩ | ⟨r, h1, h2, h3, h4, h5⟩
        · exact Or.inl ⟨h1, j, by omega, by omega, h4⟩
        · refine Or.inr ⟨r, h1, by omega, by omega, fun j hj hjr => ?_, fun h => h5 (by omega)⟩
          rcases Nat.lt_or_eq_of_le hj with hlt | rfl
          · exact h4 j hlt hjr
          · exact ⟨by omega, hbit⟩

/-- The outer loop: the first block of free frames, if there is one. -/
theorem findFree_spec (hrange : m.rangeEnd ≤ kFrameCount) {fuel : ℕ} (hfuel : m.rangeEnd - start < fuel) :
    (m.findFree n fuel start = some none ∧
      ∀ s, start ≤ s → ∃ g, s ≤ g ∧ g < s + n ∧ (m.rangeEnd ≤ g ∨ m.bit g = true)) ∨
    ∃ s, m.findFree n fuel start = some (some s) ∧ start ≤ s ∧
      ∀ g, s ≤ g → g < s + n → g < m.rangeEnd ∧ m.bit g = false := by
  induction fuel generalizing start with
  | zero => exact absurd hfuel (Nat.not_lt_zero _)
  | succ fuel ih =>
    unfold findFree
    rcases countFree_spec hrange start n 0 with ⟨h1, j, -, h3, h4⟩ | ⟨r, h1, -, h3, h4, h5⟩
    · rw [h1]
      exact Or.inl ⟨rfl, fun s hs => ⟨s + j, by omega, by omega, Or.inl (by omega)⟩⟩
    · rw [h1]
      by_cases hr : r = n
      · subst hr
        refine Or.inr ⟨start, by simp, Nat.le_refl _, fun g hg hlt => ?_⟩
        have hfree := h4 (g - start) (Nat.zero_le _) (by omega)
        rwa [Nat.add_sub_cancel' hg] at hfree
      · obtain ⟨hlt, hbit⟩ := h5 (by omega)
        simp only [Option.bind_some, if_neg hr]
        rcases ih (show m.rangeEnd - (start + (r + 1)) < fuel by omega) with ⟨h6, h7⟩ | ⟨s, h6, h7, h8⟩
        · refine Or.inl ⟨h6, fun s hs => ?_⟩
          by_cases hsr : s ≤ start + r
          · exact ⟨start + r, hsr, by omega, Or.inr hbit⟩
          · exact h7 s (by omega)
        · exact Or.inr ⟨s, h6, by omega, h8⟩

/-- The block that is found lies within the bitmap. -/
theorem found_le (hrange : m.rangeEnd ≤ kFrameCount) {s : ℕ} (hfree : ∀ g, s ≤ g → g < s + n → g < m.rangeEnd) :
    n = 0 ∨ s + n ≤ kFrameCount := by
  rcases Nat.eq_zero_or_pos n with hn | hn
  · exact Or.inl hn
  · have hlast := hfree (s + n - 1) (by omega) (by omega)
    exact Or.inr (by omega)

/-- **`Allocate`**, in a range within the bitmap, is defined, and takes a block of free frames if there
is one. -/
theorem allocate_spec (hrange : m.rangeEnd ≤ kFrameCount) :
    (m.allocate n = some (.error .noEnoughMemory, m) ∧
      ∀ s, m.rangeBegin ≤ s → ∃ g, s ≤ g ∧ g < s + n ∧ (m.rangeEnd ≤ g ∨ m.bit g = true)) ∨
    ∃ s m', m.allocate n = some (.ok s, m') ∧ m.rangeBegin ≤ s ∧
      (∀ g, s ≤ g → g < s + n → g < m.rangeEnd ∧ m.bit g = false) ∧
      (∀ g, m'.bit g = if s ≤ g ∧ g < s + n then true else m.bit g) ∧
      m'.rangeBegin = m.rangeBegin ∧ m'.rangeEnd = m.rangeEnd := by
  unfold allocate
  rcases findFree_spec hrange (n := n) (Nat.lt_succ_self (m.rangeEnd - m.rangeBegin)) with ⟨h1, h2⟩ | ⟨s, h1, h2, h3⟩
  · rw [h1]
    exact Or.inl ⟨rfl, h2⟩
  · right
    have hle := found_le hrange fun g h h' => (h3 g h h').1
    have hmark : ∃ m', m.markAllocated s n = some m' ∧ (∀ g, m'.bit g = if s ≤ g ∧ g < s + n then true else m.bit g) ∧
        m'.rangeBegin = m.rangeBegin ∧ m'.rangeEnd = m.rangeEnd := by
      rcases hle with rfl | hle
      · exact ⟨m, rfl, fun g => by rw [if_neg (by omega)], rfl, rfl⟩
      · exact m.setBits_of_le true hle
    obtain ⟨m', h4, h5, h6, h7⟩ := hmark
    simp only [h1, Option.bind_some, h4, Option.map_some]
    exact ⟨s, m', rfl, h2, h3, h5, h6, h7⟩

/-- An `Allocate` that succeeds. -/
theorem allocate_ok (hrange : m.rangeEnd ≤ kFrameCount) {s : ℕ} {m' : AllocMap}
    (h : m.allocate n = some (.ok s, m')) : m.rangeBegin ≤ s ∧
    (∀ g, s ≤ g → g < s + n → g < m.rangeEnd ∧ m.bit g = false) ∧
    (∀ g, m'.bit g = if s ≤ g ∧ g < s + n then true else m.bit g) ∧
    m'.rangeBegin = m.rangeBegin ∧ m'.rangeEnd = m.rangeEnd := by
  rcases allocate_spec hrange (n := n) with ⟨h1, -⟩ | ⟨_, _, h1, h2⟩
  · rw [h1] at h
    cases h
  · rw [h1] at h
    cases h
    exact h2

/-- An `Allocate` that fails. -/
theorem allocate_error (hrange : m.rangeEnd ≤ kFrameCount) {err : Error} {m' : AllocMap}
    (h : m.allocate n = some (.error err, m')) : m' = m := by
  rcases allocate_spec hrange (n := n) with ⟨h1, -⟩ | ⟨_, _, h1, -⟩
  · rw [h1] at h
    cases h
    rfl
  · rw [h1] at h
    cases h

/-! ### A range that ends beyond the bitmap -/

theorem countFree_beyond (hrange : kFrameCount < m.rangeEnd) {k i : ℕ} (hi : start + i ≤ kFrameCount) :
    m.countFree start k i = none ∨ ∃ r, m.countFree start k i = some (some r) ∧ start + r ≤ kFrameCount ∧
      (r ≠ i + k → start + r < kFrameCount) := by
  induction k generalizing i with
  | zero => exact Or.inr ⟨i, rfl, hi, fun h => absurd rfl h⟩
  | succ k ih =>
    unfold countFree
    rw [if_neg (by omega)]
    rcases Nat.lt_or_eq_of_le hi with hlt | heq
    · rw [getBit_of_lt hlt, Option.bind_some]
      cases m.bit (start + i) with
      | true => exact Or.inr ⟨i, rfl, hi, fun _ => hlt⟩
      | false =>
        rw [if_neg Bool.false_ne_true]
        rcases ih (i := i + 1) (by omega) with h | ⟨r, h1, h2, h3⟩
        · exact Or.inl h
        · exact Or.inr ⟨r, h1, h2, fun hne => h3 (by omega)⟩
    · rw [getBit_of_le (by omega)]
      exact Or.inl rfl

theorem findFree_beyond (hrange : kFrameCount < m.rangeEnd) {fuel : ℕ} (hstart : start ≤ kFrameCount)
    (hfuel : kFrameCount - start < fuel) :
    m.findFree n fuel start = none ∨ ∃ s, m.findFree n fuel start = some (some s) ∧ n ≤ kFrameCount := by
  induction fuel generalizing start with
  | zero => exact absurd hfuel (Nat.not_lt_zero _)
  | succ fuel ih =>
    unfold findFree
    rcases countFree_beyond hrange (k := n) (i := 0) hstart with h | ⟨r, h1, h2, h3⟩
    · rw [h]
      exact Or.inl rfl
    · rw [h1]
      by_cases hr : r = n
      · subst hr
        exact Or.inr ⟨start, by simp, by omega⟩
      · have hlt := h3 (by omega)
        simp only [Option.bind_some, if_neg hr]
        exact ih (by omega) (by omega)

/-- Then `Allocate` never finds out that there is not enough memory. -/
theorem allocate_beyond (hrange : kFrameCount < m.rangeEnd) (hbegin : m.rangeBegin ≤ kFrameCount) :
    m.allocate n = none ∨ ∃ s m', m.allocate n = some (.ok s, m') ∧ n ≤ kFrameCount ∧
      m'.rangeBegin = m.rangeBegin ∧ m'.rangeEnd = m.rangeEnd := by
  unfold allocate
  rcases findFree_beyond hrange (n := n) hbegin (show _ < m.rangeEnd - m.rangeBegin + 1 by omega) with h | ⟨s, h1, h2⟩
  · rw [h]
    exact Or.inl rfl
  · rw [h1]
    cases hmark : m.markAllocated s n with
    | none => exact Or.inl (by simp [hmark])
    | some m' =>
      obtain ⟨-, hends⟩ := setBits_some hmark
      exact Or.inr ⟨s, m', by simp [hmark], h2, hends⟩

/-! ### The bits alone -/

/-- `BitmapMemoryManager`, which has the bits. -/
def toBitmap (m : AllocMap) (h : m.rangeEnd ≤ kFrameCount) : BitmapMemoryManager where
  getBit := m.bit
  rangeBegin := m.rangeBegin
  rangeEnd := m.rangeEnd
  rangeEnd_le := Nat.le_trans h (by decide)

@[simp] theorem toBitmap_getBit (h : m.rangeEnd ≤ kFrameCount) : (m.toBitmap h).getBit = m.bit := rfl

@[simp] theorem toBitmap_rangeBegin (h : m.rangeEnd ≤ kFrameCount) : (m.toBitmap h).rangeBegin = m.rangeBegin := rfl

@[simp] theorem toBitmap_rangeEnd (h : m.rangeEnd ≤ kFrameCount) : (m.toBitmap h).rangeEnd = m.rangeEnd := rfl

theorem countFree_toBitmap (h : m.rangeEnd ≤ kFrameCount) {k i : ℕ} :
    m.countFree start k i = some ((m.toBitmap h).countFree start k i) := by
  induction k generalizing i with
  | zero => rfl
  | succ k ih =>
    unfold countFree BitmapMemoryManager.countFree
    by_cases hend : m.rangeEnd ≤ start + i
    · rw [toBitmap_rangeEnd, if_pos hend, if_pos hend]
    · rw [toBitmap_rangeEnd, if_neg hend, if_neg hend, getBit_of_lt (by omega), Option.bind_some, ih]
      cases hbit : m.bit (start + i) with
      | true => simp [hbit]
      | false => simp [hbit]

theorem findFree_toBitmap (h : m.rangeEnd ≤ kFrameCount) {fuel : ℕ} :
    m.findFree n fuel start = some ((m.toBitmap h).findFree n fuel start) := by
  induction fuel generalizing start with
  | zero => rfl
  | succ fuel ih =>
    unfold findFree BitmapMemoryManager.findFree
    rw [countFree_toBitmap h, Option.bind_some]
    cases (m.toBitmap h).countFree start n 0 with
    | none => rfl
    | some i =>
      dsimp only
      by_cases hi : i = n
      · rw [if_pos hi, if_pos hi]
      · rw [if_neg hi, if_neg hi, ih]

/-- Setting the bits of a block. -/
theorem setBits_toBitmap (h : m.rangeEnd ≤ kFrameCount) (hn : start + n ≤ kFrameCount) :
    ∃ m', m.setBits start allocated n = some m' ∧
      ∃ h' : m'.rangeEnd ≤ kFrameCount, (m.toBitmap h).withBlock start n allocated = m'.toBitmap h' := by
  obtain ⟨m', h1, h2, h3, h4⟩ := m.setBits_of_le allocated hn
  refine ⟨m', h1, by rw [h4]; exact h, ?_⟩
  have hbit : m'.bit = fun g => if start ≤ g ∧ g < start + n then allocated else m.bit g := funext h2
  simp only [toBitmap, BitmapMemoryManager.withBlock, hbit, h3, h4]

theorem markAllocated_toBitmap (h : m.rangeEnd ≤ kFrameCount) (hn : start + n ≤ kFrameCount) :
    ∃ m', m.markAllocated start n = some m' ∧
      ∃ h' : m'.rangeEnd ≤ kFrameCount, (m.toBitmap h).markAllocated start n = m'.toBitmap h' := by
  rw [BitmapMemoryManager.markAllocated_eq]
  exact setBits_toBitmap h hn

theorem free_toBitmap (h : m.rangeEnd ≤ kFrameCount) (hn : start + n ≤ kFrameCount) :
    ∃ m', m.free start n = some m' ∧
      ∃ h' : m'.rangeEnd ≤ kFrameCount, (m.toBitmap h).free start n = m'.toBitmap h' := by
  rw [BitmapMemoryManager.free_eq]
  exact setBits_toBitmap h hn

/-- **`Allocate` on the lines** does what `Allocate` on the bits does. -/
theorem allocate_toBitmap (h : m.rangeEnd ≤ kFrameCount) : ∃ r m', m.allocate n = some (r, m') ∧
    ∃ h' : m'.rangeEnd ≤ kFrameCount, (m.toBitmap h).allocate n = (r, m'.toBitmap h') := by
  have hfind : m.findFree n (m.rangeEnd - m.rangeBegin + 1) m.rangeBegin = _ := findFree_toBitmap h
  have hspec := findFree_spec h (n := n) (Nat.lt_succ_self (m.rangeEnd - m.rangeBegin))
  unfold allocate BitmapMemoryManager.allocate
  rw [toBitmap_rangeBegin, toBitmap_rangeEnd]
  cases hres : (m.toBitmap h).findFree n (m.rangeEnd - m.rangeBegin + 1) m.rangeBegin with
  | none =>
    rw [hres] at hfind
    exact ⟨_, m, by rw [hfind]; rfl, h, rfl⟩
  | some s =>
    rw [hres] at hfind
    have hle : n = 0 ∨ s + n ≤ kFrameCount := by
      rcases hspec with ⟨h1, -⟩ | ⟨s', h1, -, h3⟩
      · rw [hfind] at h1
        cases h1
      · rw [hfind] at h1
        cases h1
        exact found_le h fun g h h' => (h3 g h h').1
    simp only [hfind, Option.bind_some]
    rcases hle with rfl | hle
    · exact ⟨_, m, rfl, h, rfl⟩
    · obtain ⟨m', h1, h', h2⟩ := markAllocated_toBitmap h hle
      exact ⟨_, m', by rw [h1]; rfl, h', by rw [h2]⟩

end AllocMap

end DuvuvurKernel
