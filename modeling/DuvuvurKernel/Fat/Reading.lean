import DuvuvurKernel.Fat.Descriptor

/-!
# What reading delivers

The bytes of a file are those of its clusters, one after the other. A descriptor that
has read `q` bytes stands in the cluster that holds byte `q`, or at the end of the
chain, and each `Read` delivers the next bytes (`read_spec`), however the reads are
cut (`readAll_spec`).
-/

namespace DuvuvurKernel.Fat

variable (g : BPB)

/-- Byte `k` of the file with the clusters `cs`. -/
def Volume.fileByte (v : Volume) (cs : List ℕ) (k : ℕ) : UInt8 :=
  v.data (cs[k / g.bytesPerCluster]?.getD 0) (k % g.bytesPerCluster)

/-- `n` bytes of the file, from byte `q` on. -/
def Volume.fileBytes (v : Volume) (cs : List ℕ) (q n : ℕ) : List UInt8 :=
  (List.range n).map fun k => v.fileByte g cs (q + k)

/-- The cluster that holds byte `q`, or the end of the chain. -/
def clusterAt (cs : List ℕ) (q : ℕ) : ℕ := cs[q / g.bytesPerCluster]?.getD kEndOfClusterchain

/-- The descriptor has read `q` bytes of the file. -/
structure FileDescriptor.ReadAt (fd : FileDescriptor) (cs : List ℕ) (q : ℕ) : Prop where
  off : fd.rdOff = q
  clusterOff : fd.rdClusterOff = q % g.bytesPerCluster
  cluster : fd.rdCluster = clusterAt g cs q ∨ q = 0 ∧ fd.rdCluster = 0

/-- A sequence of reads. -/
def FileDescriptor.readAll (v : Volume) : FileDescriptor → List ℕ → Option (List (List UInt8))
  | _, [] => some []
  | fd, len :: lens => do
    let (bytes, fd) ← fd.read g v len
    let rest ← fd.readAll v lens
    some (bytes :: rest)

/-- Data cut into pieces of the given lengths, as far as it goes. -/
def pieces : List UInt8 → List ℕ → List (List UInt8)
  | _, [] => []
  | data, len :: lens => data.take len :: pieces (data.drop len) lens

variable {g} {v : Volume} {first q m n : ℕ} {cs : List ℕ}

theorem fileBytes_add (v : Volume) (cs : List ℕ) (q m n : ℕ) :
    v.fileBytes g cs q (m + n) = v.fileBytes g cs q m ++ v.fileBytes g cs (q + m) n := by
  simp only [Volume.fileBytes, List.range_add, List.map_append, List.map_map]
  refine congrArg _ (List.map_congr_left fun k _ => ?_)
  simp [Nat.add_assoc]

theorem add_div_mod_of_lt {q k b : ℕ} (h : q % b + k < b) : (q + k) / b = q / b ∧ (q + k) % b = q % b + k := by
  have hq : q + k = b * (q / b) + (q % b + k) := by rw [← Nat.add_assoc, Nat.div_add_mod]
  constructor
  · rw [hq, Nat.mul_add_div (by omega), Nat.div_eq_of_lt h, Nat.add_zero]
  · rw [hq, Nat.mul_add_mod, Nat.mod_eq_of_lt h]

theorem add_div_mod_of_eq {q k b : ℕ} (hb : 0 < b) (h : q % b + k = b) : (q + k) / b = q / b + 1 ∧ (q + k) % b = 0 := by
  have hq : q + k = b * (q / b + 1) := by rw [Nat.mul_succ, ← h, ← Nat.add_assoc, h, Nat.div_add_mod]
  constructor
  · rw [hq, Nat.mul_div_cancel_left _ hb]
  · rw [hq, Nat.mul_mod_right]

/-- The bytes of one cluster. -/
theorem fileBytes_eq {c : ℕ} (hc : cs[q / g.bytesPerCluster]? = some c)
    (hn : q % g.bytesPerCluster + n ≤ g.bytesPerCluster) :
    v.fileBytes g cs q n = (List.range n).map fun k => v.data c (q % g.bytesPerCluster + k) := by
  refine List.map_congr_left fun k hk => ?_
  have hk' : q % g.bytesPerCluster + k < g.bytesPerCluster := by
    have := List.mem_range.mp hk
    omega
  obtain ⟨hdiv, hmod⟩ := add_div_mod_of_lt hk'
  rw [Volume.fileByte, hdiv, hmod, hc, Option.getD_some]

/-- After `n` bytes more, a descriptor stands where byte `q + n` is. -/
theorem leaveCluster_at (hg : g.WellFormed) (h : IsChain g v.fat first cs) (hlt : q / g.bytesPerCluster < cs.length)
    (hn : n ≤ g.bytesPerCluster - q % g.bytesPerCluster) :
    leaveCluster g v cs[q / g.bytesPerCluster] (q % g.bytesPerCluster + n) =
      some (clusterAt g cs (q + n), (q + n) % g.bytesPerCluster) := by
  have hb := hg.bytesPerCluster_pos
  have hmod := Nat.mod_lt q hb
  have hc : cs[q / g.bytesPerCluster]? = some cs[q / g.bytesPerCluster] := List.getElem?_eq_getElem hlt
  rw [leaveCluster]
  split
  next he =>
    obtain ⟨h1, h2⟩ := add_div_mod_of_eq hb he
    rw [nextCluster_getElem h hlt, clusterAt, h1, h2]
    rfl
  next he =>
    obtain ⟨h1, h2⟩ := add_div_mod_of_lt (show q % g.bytesPerCluster + n < g.bytesPerCluster by omega)
    rw [clusterAt, h1, h2, hc]
    rfl

/-- **The loop of `Read`** delivers the next bytes of the file, as far as its clusters go. -/
theorem readLoop_spec (hg : g.WellFormed) (h : IsChain g v.fat first cs) {fuel left : ℕ} (hf : left ≤ fuel)
    (hle : q + left ≤ cs.length * g.bytesPerCluster)
    (hdata : ∀ i (hi : i < cs.length), i * g.bytesPerCluster < q + left → g.InData cs[i]) :
    readLoop g v fuel (clusterAt g cs q) (q % g.bytesPerCluster) left =
      some (v.fileBytes g cs q left, clusterAt g cs (q + left), (q + left) % g.bytesPerCluster) := by
  have hb := hg.bytesPerCluster_pos
  induction fuel generalizing q left with
  | zero =>
    obtain rfl : left = 0 := Nat.le_zero.mp hf
    simp [readLoop, Volume.fileBytes]
  | succ fuel ih =>
    cases left with
    | zero => simp [readLoop, Volume.fileBytes]
    | succ left =>
      have hdm := Nat.div_add_mod q g.bytesPerCluster
      have hmod := Nat.mod_lt q hb
      have hlt : q / g.bytesPerCluster < cs.length :=
        (Nat.div_lt_iff_lt_mul hb).mpr (by omega)
      have hc : cs[q / g.bytesPerCluster]? = some cs[q / g.bytesPerCluster] := List.getElem?_eq_getElem hlt
      have hin : g.InData cs[q / g.bytesPerCluster] :=
        hdata _ hlt (Nat.lt_of_le_of_lt (Nat.div_mul_le_self _ _) (by omega))
      generalize hn : min (left + 1) (g.bytesPerCluster - q % g.bytesPerCluster) = n
      have hround := leaveCluster_at (n := n) hg h hlt (by omega)
      have hrest : readLoop g v fuel (clusterAt g cs (q + n)) _ (left + 1 - n) = _ := ih (by omega) (by omega)
        (fun i hi hlt' => hdata i hi (by omega))
      rw [readLoop, hn, clusterAt, hc, Option.getD_some, read_eq hin (by omega), ← fileBytes_eq hc (by omega)]
      simp only [Option.bind_eq_bind, Option.bind_some]
      rw [hround, Option.bind_some, hrest, Option.bind_some, ← fileBytes_add,
        show n + (left + 1 - n) = left + 1 by omega, show q + n + (left + 1 - n) = q + (left + 1) by omega]

/-- The loop of `Read` delivers as many bytes as it is asked for. -/
theorem length_readLoop {fuel cluster off left : ℕ} {r : List UInt8 × ℕ × ℕ}
    (h : readLoop g v fuel cluster off left = some r) : r.1.length = left := by
  induction fuel generalizing cluster off left r with
  | zero =>
    cases left with
    | zero =>
      cases h
      rfl
    | succ left => cases h
  | succ fuel ih =>
    cases left with
    | zero =>
      cases h
      rfl
    | succ left =>
      rw [readLoop] at h
      obtain ⟨bytes, hbytes, h⟩ := Option.bind_eq_some_iff.mp h
      obtain ⟨⟨cluster', off'⟩, -, h⟩ := Option.bind_eq_some_iff.mp h
      obtain ⟨⟨rest, cluster'', off''⟩, hrest, h⟩ := Option.bind_eq_some_iff.mp h
      cases h
      have hlen : bytes.length = min (left + 1) (g.bytesPerCluster - off) := by
        unfold Volume.read at hbytes
        split at hbytes
        · cases hbytes
          simp
        · cases hbytes
      have := ih hrest
      rw [List.length_append, hlen, this]
      omega

@[simp] theorem length_fileBytes : (v.fileBytes g cs q n).length = n := by
  simp [Volume.fileBytes]

theorem take_fileBytes (m : ℕ) : (v.fileBytes g cs q n).take m = v.fileBytes g cs q (min m n) := by
  rw [Volume.fileBytes, Volume.fileBytes, ← List.map_take, List.take_range]

theorem drop_fileBytes (m : ℕ) : (v.fileBytes g cs q n).drop m = v.fileBytes g cs (q + min m n) (n - min m n) := by
  have h := fileBytes_add (g := g) v cs q (min m n) (n - min m n)
  rw [Nat.add_sub_cancel' (Nat.min_le_right m n)] at h
  rcases Nat.le_total m n with hle | hle
  · rw [Nat.min_eq_left hle] at h ⊢
    rw [h, List.drop_left' length_fileBytes]
  · rw [Nat.min_eq_right hle, Nat.sub_self, List.drop_eq_nil_of_le (by simpa using hle)]
    rfl

theorem subSize_of_le {a b : ℕ} (h : b ≤ a) (ha : a < 2 ^ 64) : subSize a b = a - b := by
  rw [subSize]
  omega

theorem word_lt (e : EntryPtr) (field : ℕ) : v.word e field < 65536 := by
  have h1 := (v.byte e field).toNat_lt
  have h2 := (v.byte e (field + 1)).toNat_lt
  rw [Volume.word]
  omega

theorem fileSize_lt (e : EntryPtr) : v.fileSize e < 2 ^ 32 := by
  have h1 := word_lt (v := v) e 28
  have h2 := word_lt (v := v) e 30
  rw [Volume.fileSize]
  omega

theorem clusterAt_zero (h : IsChain g v.fat first cs) : clusterAt g cs 0 = first := by
  rw [clusterAt, Nat.zero_div, h.linked.getElem?_zero]
  rfl

theorem clusterAt_ne_zero (h : IsChain g v.fat first cs) : clusterAt g cs q ≠ 0 := by
  rw [clusterAt]
  cases hc : cs[q / g.bytesPerCluster]? with
  | none => decide
  | some c =>
    have := (h.lt c (List.mem_of_getElem? hc)).1
    simp only [Option.getD_some]
    omega

/-- **`Read`** delivers the next bytes of the file, up to its size. -/
theorem read_spec (hg : g.WellFormed) {fd : FileDescriptor} (h : IsChain g v.fat (v.firstCluster fd.entry) cs)
    (hr : fd.ReadAt g cs q) (hq : q ≤ v.fileSize fd.entry) (hn : min n (v.fileSize fd.entry - q) = m)
    (hle : q + m ≤ cs.length * g.bytesPerCluster)
    (hdata : ∀ i (hi : i < cs.length), i * g.bytesPerCluster < q + m → g.InData cs[i]) :
    ∃ fd', fd.read g v n = some (v.fileBytes g cs q m, fd') ∧ fd'.entry = fd.entry ∧ fd'.ReadAt g cs (q + m) := by
  have hcluster : (if fd.rdCluster = 0 then v.firstCluster fd.entry else fd.rdCluster) = clusterAt g cs q := by
    rcases hr.cluster with hc | ⟨rfl, hc⟩
    · rw [hc, if_neg (clusterAt_ne_zero h)]
    · rw [hc, if_pos rfl, clusterAt_zero h]
  have hsize := fileSize_lt (v := v) fd.entry
  refine ⟨{ fd with rdOff := q + m, rdCluster := clusterAt g cs (q + m), rdClusterOff := (q + m) % g.bytesPerCluster },
    ?_, rfl, ⟨rfl, rfl, Or.inl rfl⟩⟩
  simp only [FileDescriptor.read, hcluster, hr.clusterOff, hr.off]
  rw [subSize_of_le hq (by omega), hn, readLoop_spec hg h (Nat.le_refl m) hle hdata]
  simp

/-- **Reads** deliver the bytes of the file, however they are cut. -/
theorem readAll_spec (hg : g.WellFormed) {fd : FileDescriptor} (hr : fd.ReadAt g cs q)
    (h : IsChain g v.fat (v.firstCluster fd.entry) cs) (hq : q ≤ v.fileSize fd.entry)
    (hle : v.fileSize fd.entry ≤ cs.length * g.bytesPerCluster) (hdata : ∀ c ∈ cs, g.InData c) (lens : List ℕ) :
    fd.readAll g v lens = some (pieces (v.fileBytes g cs q (v.fileSize fd.entry - q)) lens) := by
  induction lens generalizing fd q with
  | nil => rfl
  | cons len lens ih =>
    obtain ⟨fd', h1, h2, h3⟩ := read_spec hg h hr hq rfl (by omega) (fun i hi _ => hdata _ (List.getElem_mem hi))
    have hrest := ih h3 (h2 ▸ h) (by rw [h2]; omega) (h2 ▸ hle)
    rw [FileDescriptor.readAll, h1]
    simp only [Option.bind_eq_bind, Option.bind_some]
    rw [hrest, h2, pieces, take_fileBytes, drop_fileBytes, Option.bind_some, Nat.sub_sub]

/-- Reads of a file of size 0 deliver nothing. -/
theorem readAll_of_size_zero {fd : FileDescriptor} (hs : v.fileSize fd.entry = 0) (ho : fd.rdOff = 0)
    (lens : List ℕ) : fd.readAll g v lens = some (pieces [] lens) := by
  induction lens generalizing fd with
  | nil => rfl
  | cons len lens ih =>
    have hlen : min len (subSize 0 0) = 0 := by simp [subSize]
    obtain ⟨fd', hread, he, ho'⟩ : ∃ fd', fd.read g v len = some ([], fd') ∧ fd'.entry = fd.entry ∧ fd'.rdOff = 0 := by
      simp only [FileDescriptor.read, hs, ho, hlen, readLoop]
      exact ⟨_, rfl, rfl, rfl⟩
    have hrest := ih (he ▸ hs) ho'
    simp [FileDescriptor.readAll, hread, hrest, pieces]

end DuvuvurKernel.Fat
