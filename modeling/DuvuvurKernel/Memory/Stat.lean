import DuvuvurKernel.Memory.AllocMap

/-!
# Allocated frames

`Stat` counts the bits of whole lines, from the line of the first frame of the range up to
that of the frame behind the last one, which it leaves out.

**Result** (`stat_iff`): this is the number of the allocated frames of the range exactly if as
many frames are allocated before the range in its first line as at its end in the line left
out. In a range that starts at frame 1 and ends with a line, frame 0 decides.
-/

namespace DuvuvurKernel

/-- `MemoryStat`. -/
structure MemoryStat where
  allocatedFrames : ℕ
  totalFrames : ℕ
  deriving DecidableEq

namespace AllocMap

/-- The loop of `Stat` over `k` lines, from index `i` on. -/
def countLines (m : AllocMap) : ℕ → ℕ → ℕ → Option ℕ
  | 0, _, sum => some sum
  | k + 1, i, sum => if h : i < mapLines then m.countLines k (i + 1) (sum + (m.allocMap ⟨i, h⟩).cpop.toNat) else none

/-- `Stat`. -/
def stat (m : AllocMap) : Option MemoryStat :=
  let first := m.rangeBegin / kBitsPerMapLine
  (m.countLines (m.rangeEnd / kBitsPerMapLine - first) first 0).map fun sum => ⟨sum, m.rangeEnd - m.rangeBegin⟩

/-- The number of the frames from one on whose bit is set. -/
def allocatedIn (m : AllocMap) (start n : ℕ) : ℕ := (List.range' start n).countP fun frame => m.getBit frame = some true

variable {m : AllocMap} {start n : ℕ}

theorem allocatedIn_add (m : AllocMap) (start n k : ℕ) :
    m.allocatedIn start (n + k) = m.allocatedIn start n + m.allocatedIn (start + n) k := by
  have hsplit : List.range' start (n + k) = List.range' start n ++ List.range' (start + n) k := by
    simp
  rw [allocatedIn, hsplit, List.countP_append]
  rfl

theorem allocatedIn_le (m : AllocMap) (start n : ℕ) : m.allocatedIn start n ≤ n := by
  have hle := List.countP_le_length (p := fun frame => decide (m.getBit frame = some true)) (l := List.range' start n)
  rwa [List.length_range'] at hle

/-- The bits of a word. -/
theorem cpopNatRec_eq_countP (line : BitVec 64) (n : ℕ) : line.cpopNatRec n 0 = (List.range n).countP line.getLsbD := by
  induction n with
  | zero => rfl
  | succ n ih =>
    rw [BitVec.cpopNatRec_succ, BitVec.cpopNatRec_eq, ih, List.range_succ, List.countP_append, List.countP_singleton]
    cases line.getLsbD n with
    | false => rfl
    | true => rfl

/-- The bits of a line are those of its frames. -/
theorem cpop_line {i : ℕ} (hi : i < mapLines) :
    (m.allocMap ⟨i, hi⟩).cpop.toNat = m.allocatedIn (kBitsPerMapLine * i) kBitsPerMapLine := by
  rw [BitVec.toNat_cpop, cpopNatRec_eq_countP, allocatedIn, List.range'_eq_map_range, List.countP_map]
  refine List.countP_congr fun k hk => ?_
  have hk := List.mem_range.mp hk
  have hdiv : (kBitsPerMapLine * i + k) / kBitsPerMapLine = i := by
    unfold kBitsPerMapLine
    omega
  have hmod : (kBitsPerMapLine * i + k) % kBitsPerMapLine = k := by
    unfold kBitsPerMapLine
    omega
  have hline : (kBitsPerMapLine * i + k) / kBitsPerMapLine < mapLines := by rwa [hdiv]
  have hbit : m.bit (kBitsPerMapLine * i + k) = (m.allocMap ⟨i, hi⟩).getLsbD k := by
    rw [bit_eq hline, hmod]
    simp only [hdiv]
  rw [Function.comp_apply, getBit_of_lt (line_lt.mp hline), hbit]
  simp

/-- The loop counts the frames of its lines. -/
theorem countLines_eq {k i sum : ℕ} (hk : i + k ≤ mapLines) :
    m.countLines k i sum = some (sum + m.allocatedIn (kBitsPerMapLine * i) (kBitsPerMapLine * k)) := by
  induction k generalizing i sum with
  | zero => rfl
  | succ k ih =>
    have hi : i < mapLines := by omega
    have hlines : kBitsPerMapLine * (k + 1) = kBitsPerMapLine + kBitsPerMapLine * k := by
      rw [Nat.mul_succ, Nat.add_comm]
    rw [countLines, dif_pos hi, ih (by omega), cpop_line hi, hlines, allocatedIn_add, Nat.mul_succ, Nat.add_assoc]

/-- `Stat` is defined in a range within the bitmap. -/
theorem stat_eq (hrange : m.rangeBegin ≤ m.rangeEnd) (hcap : m.rangeEnd ≤ kFrameCount) :
    m.stat = some ⟨m.allocatedIn (kBitsPerMapLine * (m.rangeBegin / kBitsPerMapLine))
      (kBitsPerMapLine * (m.rangeEnd / kBitsPerMapLine - m.rangeBegin / kBitsPerMapLine)),
          m.rangeEnd - m.rangeBegin⟩ := by
  have hlines : m.rangeBegin / kBitsPerMapLine + (m.rangeEnd / kBitsPerMapLine - m.rangeBegin / kBitsPerMapLine) ≤
      mapLines := by
    have hdiv := Nat.div_le_div_right (c := kBitsPerMapLine) hrange
    have hend : m.rangeEnd / kBitsPerMapLine ≤ mapLines := Nat.div_le_div_right hcap
    omega
  rw [stat, countLines_eq hlines, Option.map_some, Nat.zero_add]

/-- **Allocated frames**: `Stat` returns the number of the allocated frames of the range, and so at most that of all
its frames, exactly if the frames before the range that it counts are as many as those at its end that it does not. -/
theorem stat_iff (hrange : m.rangeBegin ≤ m.rangeEnd) (hcap : m.rangeEnd ≤ kFrameCount) :
    (∃ st, m.stat = some st ∧ st.allocatedFrames = m.allocatedIn m.rangeBegin (m.rangeEnd - m.rangeBegin) ∧
      st.totalFrames = m.rangeEnd - m.rangeBegin ∧ st.allocatedFrames ≤ st.totalFrames) ↔
    m.allocatedIn (kBitsPerMapLine * (m.rangeBegin / kBitsPerMapLine)) (m.rangeBegin % kBitsPerMapLine) =
      m.allocatedIn (kBitsPerMapLine * (m.rangeEnd / kBitsPerMapLine)) (m.rangeEnd % kBitsPerMapLine) := by
  have hstat := stat_eq hrange hcap
  have hbegin := Nat.div_add_mod m.rangeBegin kBitsPerMapLine
  have hend := Nat.div_add_mod m.rangeEnd kBitsPerMapLine
  have hlines : kBitsPerMapLine * (m.rangeBegin / kBitsPerMapLine) +
      kBitsPerMapLine * (m.rangeEnd / kBitsPerMapLine - m.rangeBegin / kBitsPerMapLine) =
        kBitsPerMapLine * (m.rangeEnd / kBitsPerMapLine) := by
    rw [← Nat.mul_add, Nat.add_sub_cancel' (Nat.div_le_div_right hrange)]
  -- the frames of the first line up to the end of the range, counted in two ways
  have hfirst := m.allocatedIn_add (kBitsPerMapLine * (m.rangeBegin / kBitsPerMapLine)) (m.rangeBegin % kBitsPerMapLine)
    (m.rangeEnd - m.rangeBegin)
  have hlast := m.allocatedIn_add (kBitsPerMapLine * (m.rangeBegin / kBitsPerMapLine))
    (kBitsPerMapLine * (m.rangeEnd / kBitsPerMapLine - m.rangeBegin / kBitsPerMapLine)) (m.rangeEnd % kBitsPerMapLine)
  have hsame : m.rangeBegin % kBitsPerMapLine + (m.rangeEnd - m.rangeBegin) =
      kBitsPerMapLine * (m.rangeEnd / kBitsPerMapLine - m.rangeBegin / kBitsPerMapLine) +
          m.rangeEnd % kBitsPerMapLine := by
    omega
  rw [hbegin, hsame] at hfirst
  rw [hlines, hfirst] at hlast
  constructor
  · rintro ⟨st, hst, hcount, -⟩
    obtain rfl := Option.some.inj (hstat.symm.trans hst)
    dsimp only at hcount
    omega
  · intro hequal
    refine ⟨_, hstat, ?_, rfl, ?_⟩
    · dsimp only
      omega
    · have hle := m.allocatedIn_le m.rangeBegin (m.rangeEnd - m.rangeBegin)
      dsimp only
      omega

/-- A new allocator, whose range starts and ends with a line. -/
theorem stat_iff_initial : ∃ st, initial.stat = some st ∧ st.allocatedFrames = initial.allocatedIn 0 kFrameCount ∧
    st.totalFrames = kFrameCount ∧ st.allocatedFrames ≤ st.totalFrames :=
  (stat_iff (m := initial) (Nat.zero_le _) (Nat.le_refl _)).mpr rfl

/-- The last frame of a range is allocated, but its line is left out. -/
theorem last_line_left_out : ∃ m, (initial.setMemoryRange 1 65).markAllocated 64 1 = some m ∧
    m.rangeBegin = 1 ∧ m.rangeEnd = 65 ∧ m.allocatedIn 1 64 = 1 ∧ m.stat = some ⟨0, 64⟩ := by
  obtain ⟨m, hmark, hbit, hbegin, hend⟩ :=
    (initial.setMemoryRange 1 65).setBits_of_le true (show 64 + 1 ≤ kFrameCount by decide)
  have hcount : ∀ start n, start + n ≤ 65 → m.allocatedIn start n = (List.range' start n).countP fun g => g = 64 := by
    intro start n hle
    refine List.countP_congr fun g hg => ?_
    have hlt : g < 65 := by
      have hmem := List.mem_range'_1.mp hg
      omega
    have hcap : g < kFrameCount := Nat.lt_trans hlt (by decide)
    have hclear : (initial.setMemoryRange 1 65).bit g = false :=
      Bool.eq_false_iff.mpr fun hset => absurd ((initial_bit g).mp hset) (Nat.not_le.mpr hcap)
    rw [getBit_of_lt hcap, hbit, hclear]
    simp
    omega
  have hbegin : m.rangeBegin = 1 := hbegin
  have hend : m.rangeEnd = 65 := hend
  refine ⟨m, hmark, hbegin, hend, ?_, ?_⟩
  · rw [hcount 1 64 (by decide)]
    decide
  · rw [stat_eq (by rw [hbegin, hend]; decide) (by rw [hend]; decide), hbegin, hend]
    have hzero : m.allocatedIn (kBitsPerMapLine * (1 / kBitsPerMapLine))
        (kBitsPerMapLine * (65 / kBitsPerMapLine - 1 / kBitsPerMapLine)) = 0 := by
      rw [hcount _ _ (by decide)]
      decide
    rw [hzero]

end AllocMap

end DuvuvurKernel
