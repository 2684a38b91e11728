import DuvuvurKernel.Fat.Reading

/-!
# Loading, and the clusters visited

`FileDescriptor::Load` (`fat.cpp`) goes along the chain to an offset and reads from there on with a
descriptor of its own. `load_spec` says what it delivers.

`Read` and `Load` do not look at what they are given: the offset can lie behind the end of the
file, and the cluster can be the end of the chain. `readVisits` and `loadVisits` list the
clusters they use, whatever these are.
-/

namespace DuvuvurKernel.Fat

variable (g : BPB)

/-- The loop of `Load`: the cluster and the offset in it. -/
def seekLoop (v : Volume) : ℕ → ℕ → ℕ → Option (ℕ × ℕ)
  | fuel, offset, cluster =>
    if g.bytesPerCluster ≤ offset then
      match fuel with
      | 0 => none
      | fuel + 1 => do
        let cluster ← nextCluster g v cluster
        seekLoop v fuel (offset - g.bytesPerCluster) cluster
    else some (cluster, offset)

/-- The descriptor with which `Load` reads. -/
def FileDescriptor.seeking (fd : FileDescriptor) (offset cluster off : ℕ) : FileDescriptor :=
  { entry := fd.entry, rdOff := offset, rdCluster := cluster, rdClusterOff := off }

/-- `Load`: the bytes it copies into the buffer, whose number it returns. -/
def FileDescriptor.load (fd : FileDescriptor) (v : Volume) (len offset : ℕ) : Option (List UInt8) := do
  let (cluster, off) ← seekLoop g v offset offset (v.firstCluster fd.entry)
  let (bytes, _) ← (fd.seeking offset cluster off).read g v len
  some bytes

/-- The clusters the loop of `Load` goes on from. -/
def seekVisits (v : Volume) : ℕ → ℕ → ℕ → List ℕ
  | fuel, offset, cluster =>
    if g.bytesPerCluster ≤ offset then
      match fuel with
      | 0 => []
      | fuel + 1 => cluster :: ((nextCluster g v cluster).elim [] fun cluster =>
        seekVisits v fuel (offset - g.bytesPerCluster) cluster)
    else []

/-- The clusters the loop of `Read` copies from. -/
def readLoopVisits (v : Volume) : ℕ → ℕ → ℕ → ℕ → List ℕ
  | _, _, _, 0 => []
  | 0, _, _, _ + 1 => []
  | fuel + 1, cluster, off, left + 1 =>
    let n := min (left + 1) (g.bytesPerCluster - off)
    cluster :: (leaveCluster g v cluster (off + n)).elim [] fun p => readLoopVisits v fuel p.1 p.2 (left + 1 - n)

/-- The clusters `Read` copies from. -/
def FileDescriptor.readVisits (fd : FileDescriptor) (v : Volume) (len : ℕ) : List ℕ :=
  let cluster := if fd.rdCluster = 0 then v.firstCluster fd.entry else fd.rdCluster
  let len := min len (subSize (v.fileSize fd.entry) fd.rdOff)
  readLoopVisits g v len cluster fd.rdClusterOff len

/-- The clusters `Load` goes on from and copies from. -/
def FileDescriptor.loadVisits (fd : FileDescriptor) (v : Volume) (len offset : ℕ) : List ℕ :=
  seekVisits g v offset offset (v.firstCluster fd.entry) ++
    ((seekLoop g v offset offset (v.firstCluster fd.entry)).elim [] fun p =>
      (fd.seeking offset p.1 p.2).readVisits g v len)

variable {g} {v : Volume} {first fuel left len n q i : ℕ} {cs : List ℕ} {fd : FileDescriptor}

/-! ### Reading -/

/-- Where the loop of `Read` stands at its end. -/
theorem readLoop_position (hg : g.WellFormed) (h : IsChain g v.fat first cs)
    (hle : q + left ≤ cs.length * g.bytesPerCluster) {r : List UInt8 × ℕ × ℕ}
    (hr : readLoop g v fuel (clusterAt g cs q) (q % g.bytesPerCluster) left = some r) :
    r.2 = (clusterAt g cs (q + left), (q + left) % g.bytesPerCluster) := by
  have hb := hg.bytesPerCluster_pos
  induction fuel generalizing q left r with
  | zero =>
    cases left with
    | zero =>
      cases hr
      rfl
    | succ left => cases hr
  | succ fuel ih =>
    cases left with
    | zero =>
      cases hr
      rfl
    | succ left =>
      have hdm := Nat.div_add_mod q g.bytesPerCluster
      have hlt : q / g.bytesPerCluster < cs.length := (Nat.div_lt_iff_lt_mul hb).mpr (by omega)
      rw [readLoop] at hr
      obtain ⟨bytes, -, hr₁⟩ := Option.bind_eq_some_iff.mp hr
      obtain ⟨⟨c, off⟩, hp, hr₂⟩ := Option.bind_eq_some_iff.mp hr₁
      obtain ⟨⟨rest, c', off'⟩, hrest, hr₃⟩ := Option.bind_eq_some_iff.mp hr₂
      generalize hn : min (left + 1) (g.bytesPerCluster - q % g.bytesPerCluster) = n at hp hrest
      rw [clusterAt, List.getElem?_eq_getElem hlt, Option.getD_some, leaveCluster_at hg h hlt (by omega)] at hp
      cases hp
      cases hr₃
      have hend := ih (by omega) hrest
      rw [show q + n + (left + 1 - n) = q + (left + 1) by omega] at hend
      exact hend

/-- The loop of `Read` copies from clusters of the file. -/
theorem readLoopVisits_mem (hg : g.WellFormed) (h : IsChain g v.fat first cs)
    (hle : q + left ≤ cs.length * g.bytesPerCluster) {c : ℕ}
    (hc : c ∈ readLoopVisits g v fuel (clusterAt g cs q) (q % g.bytesPerCluster) left) : c ∈ cs := by
  have hb := hg.bytesPerCluster_pos
  induction fuel generalizing q left with
  | zero => cases left <;> cases hc
  | succ fuel ih =>
    cases left with
    | zero => cases hc
    | succ left =>
      have hdm := Nat.div_add_mod q g.bytesPerCluster
      have hlt : q / g.bytesPerCluster < cs.length := (Nat.div_lt_iff_lt_mul hb).mpr (by omega)
      have hat : clusterAt g cs q = cs[q / g.bytesPerCluster] := by
        rw [clusterAt, List.getElem?_eq_getElem hlt, Option.getD_some]
      rw [readLoopVisits] at hc
      generalize hn : min (left + 1) (g.bytesPerCluster - q % g.bytesPerCluster) = n at hc
      rw [hat, leaveCluster_at hg h hlt (by omega)] at hc
      rcases List.mem_cons.mp hc with rfl | hc
      · exact List.getElem_mem hlt
      · exact ih (by omega) hc

/-! ### Seeking -/

theorem clusterAt_length_mul (hb : 0 < g.bytesPerCluster) (hi : i < cs.length) :
    clusterAt g cs (i * g.bytesPerCluster) = cs[i] := by
  rw [clusterAt, Nat.mul_div_cancel _ hb, List.getElem?_eq_getElem hi, Option.getD_some]

/-- The loop of `Load`, from the start of cluster `i` on, comes to the cluster of the offset. -/
theorem seekLoop_spec (hg : g.WellFormed) (h : IsChain g v.fat first cs) (hf : q ≤ fuel)
    (hle : i * g.bytesPerCluster + q ≤ cs.length * g.bytesPerCluster) :
    seekLoop g v fuel q (clusterAt g cs (i * g.bytesPerCluster)) =
        some (clusterAt g cs (i * g.bytesPerCluster + q), q % g.bytesPerCluster) ∧
      ∀ c ∈ seekVisits g v fuel q (clusterAt g cs (i * g.bytesPerCluster)), c ∈ cs := by
  have hb := hg.bytesPerCluster_pos
  induction fuel generalizing q i with
  | zero =>
    obtain rfl := Nat.le_zero.mp hf
    rw [seekLoop, seekVisits, if_neg (by omega), if_neg (by omega)]
    exact ⟨rfl, fun c hc => by cases hc⟩
  | succ fuel ih =>
    by_cases hq : g.bytesPerCluster ≤ q
    · have hi : i < cs.length := lt_of_mul_lt_mul_right (by omega) (Nat.zero_le g.bytesPerCluster)
      have hnext : nextCluster g v cs[i] = some (clusterAt g cs ((i + 1) * g.bytesPerCluster)) := by
        rw [nextCluster_getElem h hi, clusterAt, Nat.mul_div_cancel _ hb]
      have hsum : (i + 1) * g.bytesPerCluster + (q - g.bytesPerCluster) = i * g.bytesPerCluster + q := by
        rw [Nat.succ_mul]
        omega
      obtain ⟨hseek, hvisits⟩ := ih (q := q - g.bytesPerCluster) (i := i + 1) (by omega) (by omega)
      rw [hsum, ← Nat.mod_eq_sub_mod hq] at hseek
      rw [seekLoop, seekVisits, if_pos hq, if_pos hq, clusterAt_length_mul hb hi]
      rw [hnext]
      refine ⟨hseek, fun c hc => ?_⟩
      rcases List.mem_cons.mp hc with rfl | hc
      · exact List.getElem_mem hi
      · exact hvisits c hc
    · rw [seekLoop, seekVisits, if_neg hq, if_neg hq, Nat.mod_eq_of_lt (Nat.not_le.mp hq)]
      refine ⟨?_, fun c hc => by cases hc⟩
      rw [clusterAt, clusterAt, Nat.mul_div_cancel _ hb, Nat.mul_comm, Nat.mul_add_div hb,
        Nat.div_eq_of_lt (Nat.not_le.mp hq), Nat.add_zero]

/-- The descriptor with which `Load` reads has read as many bytes as the offset says. -/
theorem seekLoop_readAt (hg : g.WellFormed) (h : IsChain g v.fat first cs) (hle : q ≤ cs.length * g.bytesPerCluster) :
    seekLoop g v q q first = some (clusterAt g cs q, q % g.bytesPerCluster) ∧
        ∀ c ∈ seekVisits g v q q first, c ∈ cs := by
  have hseek := seekLoop_spec (i := 0) hg h (Nat.le_refl q) (by omega)
  rwa [Nat.zero_mul, clusterAt_zero h, Nat.zero_add] at hseek

/-- **`Load`** delivers the bytes of the file from an offset on, up to its size. -/
theorem load_spec (hg : g.WellFormed) (h : IsChain g v.fat (v.firstCluster fd.entry) cs) (hq : q ≤ v.fileSize fd.entry)
    (hle : v.fileSize fd.entry ≤ cs.length * g.bytesPerCluster) (hdata : ∀ c ∈ cs, g.InData c) :
    fd.load g v len q = some (v.fileBytes g cs q (min len (v.fileSize fd.entry - q))) := by
  obtain ⟨hseek, -⟩ := seekLoop_readAt hg h (Nat.le_trans hq hle)
  have hat : (fd.seeking q (clusterAt g cs q) (q % g.bytesPerCluster)).ReadAt g cs q := ⟨rfl, rfl, .inl rfl⟩
  have hchain : IsChain g v.fat (v.firstCluster (fd.seeking q (clusterAt g cs q) (q % g.bytesPerCluster)).entry) cs := h
  obtain ⟨fd', hread, -⟩ := read_spec (n := len) hg hchain hat
    hq rfl (by show q + min len (v.fileSize fd.entry - q) ≤ _; omega)
    fun i hi _ => hdata _ (List.getElem_mem hi)
  rw [FileDescriptor.load, hseek, Option.bind_eq_bind, Option.bind_some]
  dsimp only
  rw [hread]
  rfl

end DuvuvurKernel.Fat
