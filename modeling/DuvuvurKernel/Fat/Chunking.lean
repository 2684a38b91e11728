import DuvuvurKernel.Fat.SharedFile

/-!
# Reads of any lengths, and reads from an offset on

`Read` keeps the offset in the file, the cluster and the offset in the cluster, and goes on to the
next cluster as soon as one is used up, so at the end of the file too. `Load` computes the cluster and
the offset in it from the offset in the file.

**Results.** However the reads of a new descriptor are cut, they deliver the bytes of the file in
their order, each as many as are left, and use no cluster of another file (`reads_chunked`). `Load`
delivers what `Read` delivers to a descriptor that has read as far as the offset (`load_agrees`).

A file may be empty, and then have no cluster at all. This is why what a descriptor has
read is stated for both (`HasRead`).
-/

namespace DuvuvurKernel.Fat

variable (g : BPB)

/-- The clusters of a file are in the data area, and hold all of its bytes. -/
structure WellFormedFile (v : Volume) (e : EntryPtr) (cs : List ℕ) : Prop where
  clusters : Clusters g v (some e) cs
  size_le : v.fileSize e ≤ cs.length * g.bytesPerCluster
  data : ∀ c ∈ cs, g.InData c

/-- A descriptor has read `q` bytes of a file that may have no clusters. -/
structure FileDescriptor.HasRead (fd : FileDescriptor) (v : Volume) (e : EntryPtr) (cs : List ℕ) (q : ℕ) : Prop where
  entry : fd.entry = e
  le : q ≤ v.fileSize e
  position : cs = [] ∧ fd.rdOff = q ∨ fd.ReadAt g cs q

/-- The clusters a sequence of reads copies from. -/
def FileDescriptor.readAllVisits (v : Volume) : FileDescriptor → List ℕ → List ℕ
  | _, [] => []
  | fd, len :: lens => fd.readVisits g v len ++ (fd.read g v len).elim [] fun r => r.2.readAllVisits v lens

/-- How many bytes a sequence of reads returns, and the descriptor after it. -/
def FileDescriptor.afterReads (v : Volume) : FileDescriptor → List ℕ → Option (ℕ × FileDescriptor)
  | fd, [] => some (0, fd)
  | fd, len :: lens => do
    let (bytes, fd) ← fd.read g v len
    let (n, fd) ← fd.afterReads v lens
    some (bytes.length + n, fd)

/-- `Load`, with the descriptor after it: the source reads with a copy. -/
def FileDescriptor.loadOn (fd : FileDescriptor) (v : Volume) (len offset : ℕ) :
    Option (List UInt8 × FileDescriptor) := do
  let bytes ← fd.load g v len offset
  some (bytes, fd)

variable {g} {v : Volume} {e : EntryPtr} {fd fd' : FileDescriptor} {cs lens : List ℕ} {data : List UInt8}
    {q n len i offset : ℕ}

/-! ### Pieces -/

theorem flatten_pieces (data : List UInt8) (lens : List ℕ) : (pieces data lens).flatten = data.take lens.sum := by
  induction lens generalizing data with
  | nil => simp [pieces]
  | cons len lens ih => rw [pieces, List.flatten_cons, ih, List.sum_cons, List.take_add]

/-- A piece begins where those before it end. -/
theorem getElem?_pieces (hi : lens[i]? = some len) :
    (pieces data lens)[i]? = some ((data.drop (lens.take i).sum).take len) := by
  induction lens generalizing data i with
  | nil => simp at hi
  | cons len' lens ih =>
    cases i with
    | zero =>
      rw [List.getElem?_cons_zero, Option.some.injEq] at hi
      simp [pieces, hi]
    | succ i =>
      rw [pieces, List.getElem?_cons_succ, ih hi, List.drop_drop, List.take_succ_cons, List.sum_cons]

/-! ### One read -/

theorem FileDescriptor.HasRead.new (cs : List ℕ) : FileDescriptor.HasRead g { entry := e } v e cs 0 where
  entry := rfl
  le := Nat.zero_le _
  position := .inr ⟨rfl, (Nat.zero_mod _).symm, .inr ⟨rfl, rfl⟩⟩

/-- A file without clusters is empty. -/
theorem WellFormedFile.empty_or_chain (h : WellFormedFile g v e cs) :
    cs = [] ∧ v.fileSize e = 0 ∨ IsChain g v.fat (v.firstCluster e) cs :=
  (h.clusters.empty_or_chain h.size_le).imp_left And.right

theorem FileDescriptor.HasRead.readAt (h : fd.HasRead g v e cs q) (hchain : IsChain g v.fat (v.firstCluster e) cs) :
    fd.ReadAt g cs q := by
  rcases h.position with ⟨rfl, -⟩ | hat
  · exact absurd rfl hchain.linked.ne_nil
  · exact hat

theorem FileDescriptor.HasRead.rdOff (h : fd.HasRead g v e cs q) : fd.rdOff = q := by
  rcases h.position with ⟨-, hoff⟩ | hat
  · exact hoff
  · exact hat.off

/-- **A read** delivers the next bytes, as many as are left. -/
theorem WellFormedFile.read (hg : g.WellFormed) (h : WellFormedFile g v e cs) (hfd : fd.HasRead g v e cs q) (len : ℕ) :
    ∃ fd', fd.read g v len = some (v.fileBytes g cs q (min len (v.fileSize e - q)), fd') ∧
      fd'.HasRead g v e cs (q + min len (v.fileSize e - q)) := by
  have hle := hfd.le
  rcases h.empty_or_chain with ⟨rfl, hsize⟩ | hchain
  · obtain rfl : q = 0 := Nat.le_zero.mp (hsize ▸ hle)
    have hlen : min len (subSize 0 0) = 0 := by simp [subSize]
    refine ⟨{ fd with rdCluster := if fd.rdCluster = 0 then v.firstCluster e else fd.rdCluster }, ?_, hfd.entry, ?_, ?_⟩
    · simp only [FileDescriptor.read, hfd.entry, hfd.rdOff, hsize, hlen, readLoop]
      simp [Volume.fileBytes]
    · rw [hsize, Nat.zero_sub, Nat.min_zero]
    · refine .inl ⟨rfl, ?_⟩
      rw [hsize, Nat.zero_sub, Nat.min_zero]
      exact hfd.rdOff
  · have hentry := hfd.entry
    subst hentry
    have hsize := h.size_le
    obtain ⟨fd', hread, hentry, hat⟩ := read_spec (n := len) hg hchain (hfd.readAt hchain) hle rfl (by omega)
      fun i hi _ => h.data _ (List.getElem_mem hi)
    exact ⟨fd', hread, hentry, by omega, .inr hat⟩

/-- It copies from the clusters of the file. -/
theorem WellFormedFile.readVisits (hg : g.WellFormed) (h : WellFormedFile g v e cs) (hfd : fd.HasRead g v e cs q)
    {c : ℕ} (hc : c ∈ fd.readVisits g v len) : c ∈ cs := by
  have hle := hfd.le
  have hlt := fileSize_lt (v := v) e
  have hsize := h.size_le
  simp only [FileDescriptor.readVisits, hfd.entry, hfd.rdOff] at hc
  rw [subSize_of_le hle (by omega)] at hc
  rcases h.empty_or_chain with ⟨rfl, hzero⟩ | hchain
  · rw [hzero, Nat.zero_sub, Nat.min_zero, readLoopVisits] at hc
    cases hc
  · have hat := hfd.readAt hchain
    have hstart : (if fd.rdCluster = 0 then v.firstCluster e else fd.rdCluster) = clusterAt g cs q := by
      rcases hat.cluster with hcluster | ⟨rfl, hcluster⟩
      · rw [hcluster, if_neg (clusterAt_ne_zero hchain)]
      · rw [hcluster, if_pos rfl, clusterAt_zero hchain]
    rw [hstart, hat.clusterOff] at hc
    exact readLoopVisits_mem hg hchain (by omega) hc

/-! ### Reads -/

theorem WellFormedFile.readAll (hg : g.WellFormed) (h : WellFormedFile g v e cs) (hfd : fd.HasRead g v e cs q)
    (lens : List ℕ) :
    fd.readAll g v lens = some (pieces (v.fileBytes g cs q (v.fileSize e - q)) lens) ∧
      ∀ c ∈ fd.readAllVisits g v lens, c ∈ cs := by
  induction lens generalizing fd q with
  | nil => exact ⟨rfl, fun c hc => by cases hc⟩
  | cons len lens ih =>
    obtain ⟨fd', hread, hfd'⟩ := h.read hg hfd len
    obtain ⟨hrest, hvisits⟩ := ih hfd'
    constructor
    · rw [FileDescriptor.readAll, hread]
      simp only [Option.bind_eq_bind, Option.bind_some]
      rw [hrest, pieces, take_fileBytes, drop_fileBytes, Option.bind_some, Nat.sub_sub]
    · intro c hc
      rw [FileDescriptor.readAllVisits, hread] at hc
      rcases List.mem_append.mp hc with hc | hc
      · exact h.readVisits hg hfd hc
      · exact hvisits c hc

/-- A descriptor after some reads has read what they returned. -/
theorem WellFormedFile.afterReads (hg : g.WellFormed) (h : WellFormedFile g v e cs) (hfd : fd.HasRead g v e cs q)
    (hrun : fd.afterReads g v lens = some (n, fd')) : fd'.HasRead g v e cs (q + n) := by
  induction lens generalizing fd q n with
  | nil =>
    cases hrun
    exact hfd
  | cons len lens ih =>
    obtain ⟨fd₁, hread, hfd₁⟩ := h.read hg hfd len
    rw [FileDescriptor.afterReads, hread, Option.bind_eq_bind, Option.bind_some] at hrun
    obtain ⟨⟨n₁, fd₂⟩, hrest, hlast⟩ := Option.bind_eq_some_iff.mp hrun
    cases hlast
    rw [length_fileBytes, ← Nat.add_assoc]
    exact ih hfd₁ hrest

/-- **Reads of any lengths** deliver the bytes of the file in their order, each as many as are left,
and none behind the end. They copy from the clusters of the file only. -/
theorem reads_chunked (hg : g.WellFormed) (h : WellFormedFile g v e cs) (lens : List ℕ) :
    ∃ outs, FileDescriptor.readAll g v { entry := e } lens = some outs ∧
      outs.flatten = v.fileBytes g cs 0 (min lens.sum (v.fileSize e)) ∧
      (∀ i len, lens[i]? = some len →
        ∃ bytes, outs[i]? = some bytes ∧ bytes.length = min len (v.fileSize e - (lens.take i).sum)) ∧
      (∀ i len, lens[i]? = some len → v.fileSize e ≤ (lens.take i).sum → outs[i]? = some []) ∧
      ∀ c ∈ FileDescriptor.readAllVisits g v { entry := e } lens, c ∈ cs := by
  obtain ⟨hreads, hvisits⟩ := h.readAll hg (.new cs) lens
  rw [Nat.sub_zero] at hreads
  refine ⟨_, hreads, ?_, ?_, ?_, hvisits⟩
  · rw [flatten_pieces, take_fileBytes]
  · intro i len hi
    refine ⟨_, getElem?_pieces hi, ?_⟩
    rw [List.length_take, List.length_drop, length_fileBytes]
  · intro i len hi hle
    rw [getElem?_pieces hi, List.drop_eq_nil_of_le (by rwa [length_fileBytes]), List.take_nil]

theorem wellFormedFile_smallFile : WellFormedFile smallBPB (smallFile 64) ⟨2, 0⟩ [3] where
  clusters := (fileAt_smallFile 64).chain.imp_left fun ⟨h0, hcs⟩ => ⟨by simp, h0, hcs⟩
  size_le := by decide
  data := by decide

/-- A file that fills its cluster is read in three reads, the last at its end. -/
theorem reads_chunked_full : ∃ outs, FileDescriptor.readAll smallBPB (smallFile 64)
    { entry := ⟨2, 0⟩ } [40, 40, 40] = some outs ∧
    outs.flatten = (smallFile 64).fileBytes smallBPB [3] 0 64 ∧ outs[1]?.map List.length = some 24 ∧
        outs[2]? = some [] := by
  obtain ⟨outs, hreads, hbytes, hlengths, hend, -⟩ :=
    reads_chunked wellFormed_smallBPB wellFormedFile_smallFile [40, 40, 40]
  obtain ⟨bytes, hsecond, hlength⟩ := hlengths 1 40 rfl
  refine ⟨outs, hreads, hbytes, ?_, hend 2 40 rfl (by decide)⟩
  rw [hsecond, Option.map_some, hlength]
  decide

/-! ### Loading -/

/-- **`Load`** delivers the bytes from an offset on, for a file without clusters too. -/
theorem WellFormedFile.load (hg : g.WellFormed) (h : WellFormedFile g v e cs) (hentry : fd.entry = e)
    (hle : offset ≤ v.fileSize e) (len : ℕ) :
    fd.load g v len offset = some (v.fileBytes g cs offset (min len (v.fileSize e - offset))) := by
  rcases h.empty_or_chain with ⟨rfl, hsize⟩ | hchain
  · obtain rfl : offset = 0 := Nat.le_zero.mp (hsize ▸ hle)
    have hseek : seekLoop g v 0 0 (v.firstCluster fd.entry) = some (v.firstCluster fd.entry, 0) := by
      rw [seekLoop, if_neg (Nat.not_le.mpr hg.bytesPerCluster_pos)]
    have hnew : (fd.seeking 0 (v.firstCluster fd.entry) 0).HasRead g v e [] 0 := ⟨hentry, hle, .inl ⟨rfl, rfl⟩⟩
    obtain ⟨fd', hread, -⟩ := h.read hg hnew len
    rw [FileDescriptor.load, hseek, Option.bind_eq_bind, Option.bind_some]
    dsimp only
    rw [hread]
    rfl
  · subst hentry
    exact load_spec hg hchain hle h.size_le h.data

/-- **`Load` agrees with `Read`.** From any offset within the file on, it delivers what `Read` delivers to a
descriptor that has read as far, by whatever reads, and leaves the descriptor it is called on alone. -/
theorem load_agrees (hg : g.WellFormed) (h : WellFormedFile g v e cs) (ho : offset ≤ v.fileSize e) :
    (∃ lens fd', FileDescriptor.afterReads g v { entry := e } lens = some (offset, fd')) ∧
      ∀ lens fd', FileDescriptor.afterReads g v { entry := e } lens = some (offset, fd') →
        ∀ fd : FileDescriptor, fd.entry = e → ∀ len, ∃ bytes fd'',
          fd'.read g v len = some (bytes, fd'') ∧ fd.loadOn g v len offset = some (bytes, fd) := by
  constructor
  · obtain ⟨fd', hread, -⟩ := h.read hg (.new cs) offset
    refine ⟨[offset], fd', ?_⟩
    rw [FileDescriptor.afterReads, hread]
    simp [FileDescriptor.afterReads, ho]
  · intro lens fd' hrun fd hentry len
    have hfd' := h.afterReads hg (.new cs) hrun
    rw [Nat.zero_add] at hfd'
    obtain ⟨fd'', hread, -⟩ := h.read hg hfd' len
    refine ⟨_, fd'', hread, ?_⟩
    rw [FileDescriptor.loadOn, h.load hg hentry ho len]
    rfl

/-- At the end of a file that fills its cluster, both deliver nothing. -/
theorem load_agrees_end : (∃ lens fd', FileDescriptor.afterReads smallBPB (smallFile 64)
    { entry := ⟨2, 0⟩ } lens = some (64, fd')) ∧
    ∀ lens fd', FileDescriptor.afterReads smallBPB (smallFile 64) { entry := ⟨2, 0⟩ } lens = some (64, fd') →
      ∀ fd : FileDescriptor, fd.entry = ⟨2, 0⟩ → ∀ len, ∃ bytes fd'',
        fd'.read smallBPB (smallFile 64) len = some (bytes, fd'') ∧
          fd.loadOn smallBPB (smallFile 64) len 64 = some (bytes, fd) :=
  load_agrees wellFormed_smallBPB wellFormedFile_smallFile (by decide)

end DuvuvurKernel.Fat
