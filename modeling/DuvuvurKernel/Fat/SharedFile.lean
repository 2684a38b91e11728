import DuvuvurKernel.Fat.Isolation
import DuvuvurKernel.Fat.Loading

/-!
# Several descriptors on one file

Each `FileDescriptor` keeps an offset and a cluster of its own, while the size and the chain are
those of the entry, which a `Write` through any of them changes.

## The model

Any number of descriptors are opened on the entry `e`, and `Read`, `Load` and `Write` are called through
them in any order (`FileOp`). What a call uses is looked at before it is known whether it has a
result: `Keeps` says of a run that each of its calls uses no other clusters than those of the
file, and that no offset is past the size when the two are subtracted.

**Result** (`shared_iff`): this holds of a run just when no `Read` or `Load` starts past the size of the
file, and no descriptor that has come to the end of the chain reads on when the file has
grown. A `Write` through another descriptor can bring about either (`read_after_shortened`).
-/

namespace DuvuvurKernel.Fat

variable (g : BPB) (e : EntryPtr)

/-- What is done with the descriptors on a file. -/
inductive FileOp where
  | open
  | read (i len : ℕ)
  | load (i len offset : ℕ)
  | write (i : ℕ) (buf : Buffer)

/-- A call. -/
def State.performFile (s : State) : FileOp → Option State
  | .open => some { s with fds := s.fds ++ [{ entry := e }] }
  | .read i len => do
    let fd ← s.fds[i]?
    let (_, fd) ← fd.read g s.volume len
    some { s with fds := s.fds.set i fd }
  | .load i len offset => do
    let fd ← s.fds[i]?
    let _ ← fd.load g s.volume len offset
    some s
  | .write i buf => do
    let fd ← s.fds[i]?
    let (_, fd, v) ← fd.write g s.volume buf
    some { volume := v, fds := s.fds.set i fd }

/-! ### What is asked of a call -/

/-- A call that reads from an offset on, uses the clusters `visits` and, if it has a result, delivers `bytes`. -/
structure ReadsWithin (v : Volume) (offset : ℕ) (visits : List ℕ) (bytes : Option (List UInt8)) : Prop where
  offset_le : offset ≤ v.fileSize e
  length_le : ∀ b ∈ bytes, b.length ≤ v.fileSize e - offset
  visits_mem : ∃ cs, Clusters g v (some e) cs ∧ ∀ c ∈ visits, c ∈ cs

/-- A call stays within the file. -/
def State.StaysWithin (s : State) : FileOp → Prop
  | .open => True
  | .read i len => ∀ fd, s.fds[i]? = some fd →
    ReadsWithin g e s.volume fd.rdOff (fd.readVisits g s.volume len) ((fd.read g s.volume len).map Prod.fst)
  | .load i len offset => ∀ fd, s.fds[i]? = some fd →
    ReadsWithin g e s.volume offset (fd.loadVisits g s.volume len offset) (fd.load g s.volume len offset)
  | .write i buf => ∀ fd r, s.fds[i]? = some fd → fd.write g s.volume buf = some r →
    ∃ cs, Clusters g r.2.2 (some e) cs ∧ Written g s.volume r.2.2 e cs

/-- All calls of a run stay within the file. -/
def State.Keeps (s : State) : List FileOp → Prop
  | [] => True
  | op :: ops => s.StaysWithin g e op ∧ ∀ s', s.performFile g e op = some s' → s'.Keeps ops

/-- A call does not start past the size, nor does it read on from the end of the chain. -/
def State.Suits (s : State) : FileOp → Prop
  | .read i len => ∀ fd, s.fds[i]? = some fd →
    fd.rdOff ≤ s.volume.fileSize e ∧ (fd.rdCluster = kEndOfClusterchain → min len (s.volume.fileSize e - fd.rdOff) = 0)
  | .load i _ offset => ∀ fd, s.fds[i]? = some fd → offset ≤ s.volume.fileSize e
  | _ => True

/-- So do none of the calls of a run. -/
def State.AllSuit (s : State) : List FileOp → Prop
  | [] => True
  | op :: ops => s.Suits e op ∧ ∀ s', s.performFile g e op = some s' → s'.AllSuit ops

/-! ### The invariant -/

/-- Where a descriptor stands in a file with the clusters `cs`. Its reading cluster can be the end of a chain that
has grown since. Behind its writing position there may be more than it has written. -/
structure OpenOn (cs : List ℕ) (fd : FileDescriptor) : Prop where
  entry : fd.entry = e
  rdOff_le : fd.rdOff ≤ cs.length * g.bytesPerCluster
  rdClusterOff : fd.rdClusterOff = fd.rdOff % g.bytesPerCluster
  rdCluster : fd.rdCluster = clusterAt g cs fd.rdOff ∨ fd.rdOff = 0 ∧ fd.rdCluster = 0 ∨
    fd.rdCluster = kEndOfClusterchain
  wrCluster : fd.wrCluster = 0 ∧ fd.wrClusterOff = 0 ∧ fd.wrOff = 0 ∨
    ∃ j, cs[j]? = some fd.wrCluster ∧ fd.wrOff ≤ j * g.bytesPerCluster + fd.wrClusterOff
  wrClusterOff_le : fd.wrClusterOff ≤ g.bytesPerCluster

/-- The descriptors are open on the file of an entry in a cluster of its own, which has the clusters `cs`. -/
structure SharedFile (s : State) (cs : List ℕ) : Prop where
  clusters : Clusters g s.volume (some e) cs
  used : s.volume.fat e.cluster ≠ 0
  outside : e.cluster ∉ cs
  size_le : s.volume.fileSize e ≤ cs.length * g.bytesPerCluster
  fds : ∀ fd ∈ s.fds, OpenOn g e cs fd

variable {g e} {v v' : Volume} {s s' : State} {cs ns : List ℕ} {fd fd' : FileDescriptor} {i j n len q : ℕ}
    {buf : Buffer}

theorem OpenOn.new (cs : List ℕ) : OpenOn g e cs { entry := e } :=
  ⟨rfl, Nat.zero_le _, (Nat.zero_mod _).symm, .inr (.inl ⟨rfl, rfl⟩), .inl ⟨rfl, rfl, rfl⟩, Nat.zero_le _⟩

/-- The chain grows. -/
theorem OpenOn.append (h : OpenOn g e cs fd) (ns : List ℕ) : OpenOn g e (cs ++ ns) fd := by
  refine ⟨h.entry, h.rdOff_le.trans ?_, h.rdClusterOff, ?_, ?_, h.wrClusterOff_le⟩
  · exact Nat.mul_le_mul_right _ (by simp)
  · rcases h.rdCluster with hat | hrest
    · rcases Nat.lt_or_ge (fd.rdOff / g.bytesPerCluster) cs.length with hlt | hge
      · refine .inl ?_
        rw [hat, clusterAt, clusterAt, List.getElem?_append_left hlt]
      · refine .inr (.inr ?_)
        rw [hat, clusterAt, List.getElem?_eq_none hge]
        rfl
    · exact .inr hrest
  · refine h.wrCluster.imp_right ?_
    rintro ⟨j, hj, hle⟩
    refine ⟨j, ?_, hle⟩
    rw [List.getElem?_append_left (List.getElem?_eq_some_iff.mp hj).1]
    exact hj

/-- A file without clusters has no bytes. -/
theorem Clusters.empty_or_chain {v : Volume} (h : Clusters g v (some e) cs)
    (hsize : v.fileSize e ≤ cs.length * g.bytesPerCluster) :
    v.firstCluster e = 0 ∧ cs = [] ∧ v.fileSize e = 0 ∨ IsChain g v.fat (v.firstCluster e) cs := by
  rcases h with ⟨-, h0, rfl⟩ | hchain
  · rw [List.length_nil, Nat.zero_mul] at hsize
    exact .inl ⟨h0, rfl, Nat.le_zero.mp hsize⟩
  · exact .inr hchain

theorem SharedFile.empty_or_chain (h : SharedFile g e s cs) :
    s.volume.firstCluster e = 0 ∧ cs = [] ∧ s.volume.fileSize e = 0 ∨
        IsChain g s.volume.fat (s.volume.firstCluster e) cs :=
  h.clusters.empty_or_chain h.size_le

/-- One descriptor has changed. -/
theorem SharedFile.set (h : SharedFile g e s cs) (hfd : OpenOn g e cs fd) (i : ℕ) :
    SharedFile g e { s with fds := s.fds.set i fd } cs := by
  refine ⟨h.clusters, h.used, h.outside, h.size_le, fun fd' hfd' => ?_⟩
  rcases List.mem_or_eq_of_mem_set hfd' with hmem | rfl
  · exact h.fds fd' hmem
  · exact hfd

/-! ### Reading -/

/-- The cluster from which a descriptor reads that has not come to the end of the chain, or has nothing left
to read. -/
theorem OpenOn.start (h : OpenOn g e cs fd) (hchain : IsChain g v.fat (v.firstCluster e) cs)
    (hend : fd.rdCluster = kEndOfClusterchain → n = 0) :
    (if fd.rdCluster = 0 then v.firstCluster e else fd.rdCluster) = clusterAt g cs fd.rdOff ∨
      n = 0 ∧ (if fd.rdCluster = 0 then v.firstCluster e else fd.rdCluster) = kEndOfClusterchain := by
  rcases h.rdCluster with hat | ⟨h0, hc⟩ | hc
  · rw [hat, if_neg (clusterAt_ne_zero hchain)]
    exact .inl rfl
  · rw [hc, if_pos rfl, h0, clusterAt_zero hchain]
    exact .inl rfl
  · rw [hc, if_neg (by decide)]
    exact .inr ⟨hend hc, rfl⟩

/-- What `Read` delivers and leaves behind, in terms of its loop. -/
theorem of_read {r : List UInt8 × FileDescriptor} (hr : fd.read g v len = some r) :
    ∃ c off, readLoop g v (min len (subSize (v.fileSize fd.entry) fd.rdOff))
        (if fd.rdCluster = 0 then v.firstCluster fd.entry else fd.rdCluster) fd.rdClusterOff
        (min len (subSize (v.fileSize fd.entry) fd.rdOff)) = some (r.1, c, off) ∧
      r.2 = { fd with rdOff := fd.rdOff + r.1.length, rdCluster := c, rdClusterOff := off } := by
  simp only [FileDescriptor.read] at hr
  obtain ⟨⟨bytes, c, off⟩, hloop, hr⟩ := Option.bind_eq_some_iff.mp hr
  cases hr
  exact ⟨c, off, hloop, rfl⟩

/-- **A `Read`** that starts within the size, and not at the end of a chain that has grown, stays within the
file. -/
theorem SharedFile.read (hg : g.WellFormed) (h : SharedFile g e s cs) (hopen : OpenOn g e cs fd)
    (hle : fd.rdOff ≤ s.volume.fileSize e)
    (hend : fd.rdCluster = kEndOfClusterchain → min len (s.volume.fileSize e - fd.rdOff) = 0) :
    ReadsWithin g e s.volume fd.rdOff (fd.readVisits g s.volume len) ((fd.read g s.volume len).map Prod.fst) ∧
      ∀ r, fd.read g s.volume len = some r → OpenOn g e cs r.2 := by
  have hsize := fileSize_lt (v := s.volume) e
  have hsub := subSize_of_le hle (by omega)
  have hlen := h.size_le
  obtain ⟨n, hn⟩ : ∃ n, n = min len (s.volume.fileSize e - fd.rdOff) := ⟨_, rfl⟩
  rw [← hn] at hend
  have hvisits : fd.readVisits g s.volume len = readLoopVisits g s.volume n
      (if fd.rdCluster = 0 then s.volume.firstCluster e else fd.rdCluster) fd.rdClusterOff n := by
    rw [FileDescriptor.readVisits, hopen.entry, hsub, hn]
  have hread : ∀ r, fd.read g s.volume len = some r → ∃ c off, readLoop g s.volume n
      (if fd.rdCluster = 0 then s.volume.firstCluster e else fd.rdCluster) fd.rdClusterOff n = some (r.1, c, off) ∧
      r.2 = { fd with rdOff := fd.rdOff + r.1.length, rdCluster := c, rdClusterOff := off } := by
    intro r hr
    obtain ⟨c, off, hloop, hfd⟩ := of_read hr
    rw [hopen.entry, hsub, ← hn] at hloop
    exact ⟨c, off, hloop, hfd⟩
  have hlength : ∀ b ∈ (fd.read g s.volume len).map Prod.fst, b.length ≤ s.volume.fileSize e - fd.rdOff := by
    intro b hb
    obtain ⟨r, hr, rfl⟩ := Option.map_eq_some_iff.mp hb
    obtain ⟨c, off, hloop, -⟩ := hread r hr
    have := length_readLoop hloop
    dsimp only at this
    omega
  by_cases hzero : n = 0
  · -- Nothing is read: the descriptor stays where it is.
    rw [hzero] at hvisits hread
    have hnone : ∀ c ∈ fd.readVisits g s.volume len, c ∈ cs := fun c hc => by
      rw [hvisits, readLoopVisits] at hc
      cases hc
    refine ⟨⟨hle, hlength, cs, h.clusters, hnone⟩, fun r hr => ?_⟩
    obtain ⟨bytes, fd'⟩ := r
    obtain ⟨c, off, hloop, hfd⟩ := hread _ hr
    cases hloop
    rw [hfd]
    refine ⟨hopen.entry, hopen.rdOff_le, hopen.rdClusterOff, ?_, hopen.wrCluster, hopen.wrClusterOff_le⟩
    show (if fd.rdCluster = 0 then s.volume.firstCluster e else fd.rdCluster) = clusterAt g cs fd.rdOff ∨ fd.rdOff = 0 ∧
      (if fd.rdCluster = 0 then s.volume.firstCluster e else fd.rdCluster) = 0 ∨
      (if fd.rdCluster = 0 then s.volume.firstCluster e else fd.rdCluster) = kEndOfClusterchain
    rcases h.empty_or_chain with ⟨h0, rfl, -⟩ | hchain
    · rw [h0]
      split
      next hc =>
        have hoff := hopen.rdOff_le
        rw [List.length_nil, Nat.zero_mul] at hoff
        exact .inr (.inl ⟨Nat.le_zero.mp hoff, rfl⟩)
      next => exact hopen.rdCluster
    · rcases hopen.start (n := 0) hchain fun _ => rfl with hat | ⟨-, hend⟩
      · exact .inl hat
      · exact .inr (.inr hend)
  · have hchain := h.empty_or_chain.resolve_left fun hc => hzero (by omega)
    have hstart := (hopen.start hchain hend).resolve_right fun hc => hzero hc.1
    rw [hstart, hopen.rdClusterOff] at hvisits hread
    have hmem : ∀ c ∈ fd.readVisits g s.volume len, c ∈ cs := fun c hc => by
      rw [hvisits] at hc
      exact readLoopVisits_mem hg hchain (by omega) hc
    refine ⟨⟨hle, hlength, cs, h.clusters, hmem⟩, fun r hr => ?_⟩
    obtain ⟨c, off, hloop, hfd⟩ := hread r hr
    have hcount := length_readLoop hloop
    have hpos := readLoop_position hg hchain (by omega) hloop
    dsimp only at hcount hpos
    cases hpos
    rw [hfd, hcount]
    exact ⟨hopen.entry, by dsimp only; omega, rfl, .inl rfl, hopen.wrCluster, hopen.wrClusterOff_le⟩

/-- A descriptor at the end of the chain has nothing of it left. -/
theorem length_le_of_clusterAt (hg : g.WellFormed) {first : ℕ} (h : IsChain g v.fat first cs)
    (hend : clusterAt g cs q = kEndOfClusterchain) : cs.length * g.bytesPerCluster ≤ q := by
  by_contra hlt
  have hdiv : q / g.bytesPerCluster < cs.length :=
    (Nat.div_lt_iff_lt_mul hg.bytesPerCluster_pos).mpr (Nat.not_le.mp hlt)
  rw [clusterAt, List.getElem?_eq_getElem hdiv, Option.getD_some] at hend
  have := (h.lt _ (List.getElem_mem hdiv)).2
  have := hg.fatEntries_le
  rw [kEndOfClusterchain] at hend
  omega

/-- **A `Load`** that starts within the size stays within the file. -/
theorem SharedFile.load (hg : g.WellFormed) (h : SharedFile g e s cs) (hentry : fd.entry = e)
    (hle : q ≤ s.volume.fileSize e) :
    ReadsWithin g e s.volume q (fd.loadVisits g s.volume len q) (fd.load g s.volume len q) := by
  have hlen := h.size_le
  -- The descriptor with which it reads stands where one stands that has read so far.
  obtain ⟨c, off, hseek, hseekVisits, hopen, hend⟩ :
    ∃ c off, seekLoop g s.volume q q (s.volume.firstCluster e) = some (c, off) ∧
      (∀ x ∈ seekVisits g s.volume q q (s.volume.firstCluster e), x ∈ cs) ∧ OpenOn g e cs (fd.seeking q c off) ∧
      (c = kEndOfClusterchain → s.volume.fileSize e - q = 0) := by
    rcases h.empty_or_chain with ⟨h0, rfl, hsize⟩ | hchain
    · obtain rfl : q = 0 := by omega
      have hpos : ¬ g.bytesPerCluster ≤ 0 := Nat.not_le.mpr hg.bytesPerCluster_pos
      refine ⟨0, 0, ?_, fun x hx => ?_,
        ⟨hentry, Nat.zero_le _, (Nat.zero_mod _).symm, .inr (.inl ⟨rfl, rfl⟩), .inl ⟨rfl, rfl, rfl⟩, Nat.zero_le _⟩,
          fun hc => by cases hc⟩
      · rw [seekLoop, if_neg hpos, h0]
      · rw [seekVisits, if_neg hpos] at hx
        cases hx
    · obtain ⟨hseek, hvisits⟩ := seekLoop_readAt hg hchain (hle.trans hlen)
      refine ⟨_, _, hseek, hvisits, ⟨hentry, hle.trans hlen, rfl, .inl rfl, .inl ⟨rfl, rfl, rfl⟩, Nat.zero_le _⟩,
        fun hc => ?_⟩
      have hge := length_le_of_clusterAt hg hchain hc
      omega
  obtain ⟨hreads, -⟩ : ReadsWithin g e s.volume q ((fd.seeking q c off).readVisits g s.volume len)
      (((fd.seeking q c off).read g s.volume len).map Prod.fst) ∧ _ := h.read hg hopen hle fun hc => by
    show min len (s.volume.fileSize e - q) = 0
    rw [hend hc, Nat.min_zero]
  obtain ⟨cs', hcs', hmem⟩ := hreads.visits_mem
  obtain rfl := h.clusters.unique hcs'
  refine ⟨hle, fun b hb => ?_, cs, hcs', fun x hx => ?_⟩
  · rw [FileDescriptor.load, hentry, hseek] at hb
    obtain ⟨r, hr, hb⟩ := Option.bind_eq_some_iff.mp
      (show (fd.seeking q c off).read g s.volume len >>= _ = some b from hb)
    cases hb
    exact hreads.length_le _ (Option.map_eq_some_iff.mpr ⟨r, hr, rfl⟩)
  · rw [FileDescriptor.loadVisits, hentry, hseek] at hx
    rcases List.mem_append.mp hx with hx | hx
    · exact hseekVisits x hx
    · exact hmem x hx

/-! ### Writing -/

/-- **The loop of `Write`** does not write more than it moves on along the chain. -/
theorem writeLoop_position (hg : g.WellFormed) {first fuel total c off t' c' off' : ℕ} (h : IsChain g v.fat first cs)
    (hj : cs[j]? = some c) (hoff : off ≤ g.bytesPerCluster)
    (hw : writeLoop g buf fuel total c off v = some (t', c', off', v')) :
    total ≤ t' ∧ ∃ cs' j', IsChain g v'.fat first cs' ∧ cs'[j']? = some c' ∧
      j * g.bytesPerCluster + off + t' ≤ j' * g.bytesPerCluster + off' + total := by
  induction fuel generalizing total c off j v cs with
  | zero =>
    rcases Nat.lt_or_ge total buf.bytes.length with hlt | hge
    · obtain ⟨_, hf, -⟩ := of_writeLoop hw hlt
      cases hf
    · rw [writeLoop_of_le hge] at hw
      cases hw
      exact ⟨Nat.le_refl _, cs, j, h, hj, Nat.le_refl _⟩
  | succ fuel ih =>
    rcases Nat.lt_or_ge total buf.bytes.length with hlt | hge
    · obtain ⟨_, hf, c₁, off₁, v₁, v₂, h1, h2, hw⟩ := of_writeLoop hw hlt
      cases hf
      generalize hn : min buf.bytes.length (g.bytesPerCluster - off₁) = n at h2 hw
      have hfat := fat_of_write h2
      obtain ⟨cs₁, j₁, hchain, hj₁, hoff₁, hle⟩ : ∃ cs₁ j₁, IsChain g v₁.fat first cs₁ ∧ cs₁[j₁]? = some c₁ ∧
          off₁ ≤ g.bytesPerCluster ∧ j * g.bytesPerCluster + off ≤ j₁ * g.bytesPerCluster + off₁ := by
        rcases advance_cases hg h hj h1 with ⟨-, rfl, rfl, rfl⟩ | ⟨rfl, hnext, rfl, rfl⟩ | ⟨rfl, -, rfl, hext, -, hlast⟩
        · exact ⟨cs, j, h, hj, hoff, Nat.le_refl _⟩
        · exact ⟨cs, j + 1, h, hnext, Nat.zero_le _, by rw [Nat.succ_mul, Nat.add_zero]⟩
        · refine ⟨_, _, hext.chain, hlast, Nat.zero_le _, ?_⟩
          have hpos := (lt_numCluster_iff (m := 0) hg.bytesPerCluster_pos).mpr
            (show 0 * g.bytesPerCluster < buf.bytes.length - total by omega)
          have hmul := Nat.mul_le_mul_right g.bytesPerCluster (Nat.add_le_add_left hpos j)
          rwa [Nat.add_mul, Nat.one_mul] at hmul
      obtain ⟨htotal, cs', j', hchain', hj', hle'⟩ := ih (hfat ▸ hchain) hj₁ (by omega) hw
      exact ⟨by omega, cs', j', hchain', hj', by omega⟩
    · rw [writeLoop_of_le hge] at hw
      cases hw
      exact ⟨Nat.le_refl _, cs, j, h, hj, Nat.le_refl _⟩

/-- The chain of a file is the one from its first cluster. -/
theorem Written.chain_first (h : Written g v v' e (cs ++ ns)) {first : ℕ} (hchain : IsChain g v.fat first cs) :
    IsChain g v'.fat first (cs ++ ns) := by
  have hne : 0 < cs.length := List.length_pos_of_mem hchain.linked.mem_self
  have hfirst := h.chain.linked.getElem?_zero
  rw [List.getElem?_append_left hne, hchain.linked.getElem?_zero] at hfirst
  cases hfirst
  exact h.chain

/-- A `Write` of a descriptor that stands in one of the clusters of the file. -/
theorem written_position (hg : g.WellFormed) {r : ℕ × FileDescriptor × Volume} (hw : fd.write g v buf = some r)
    (h : IsChain g v.fat (v.firstCluster fd.entry) cs) (hu : v.fat fd.entry.cluster ≠ 0) (ho : fd.entry.cluster ∉ cs)
    (hj : cs[j]? = some fd.wrCluster) (hle : fd.wrOff ≤ j * g.bytesPerCluster + fd.wrClusterOff)
    (hoff : fd.wrClusterOff ≤ g.bytesPerCluster) :
    ∃ k, Written g v r.2.2 fd.entry (cs ++ (free g v.fat).take k) ∧
      free g r.2.2.fat = (free g v.fat).drop k ∧
      r.2.2.fileSize fd.entry ≤ (cs ++ (free g v.fat).take k).length * g.bytesPerCluster ∧
      ∃ c' off' w j', r.2.1 = { fd with wrCluster := c', wrClusterOff := off', wrOff := w } ∧ off' ≤ g.bytesPerCluster ∧
        (cs ++ (free g v.fat).take k)[j']? = some c' ∧ w ≤ j' * g.bytesPerCluster + off' := by
  obtain ⟨n, fd', v'⟩ := r
  have hne : fd.wrCluster ≠ 0 := by
    have := (h.lt _ (List.mem_of_getElem? hj)).1
    omega
  obtain ⟨hentry, hoff', k, -, hwritten, hfree⟩ := written_of_mem hg hw h hu ho (List.mem_of_getElem? hj) hoff
  obtain ⟨c', off', v₁, h1, h2, hfd⟩ := of_write_later hne hw
  obtain ⟨honly, hsize, -⟩ := of_setFileSize h2
  obtain ⟨-, cs', j', hchain', hj', hpos⟩ := writeLoop_position hg h hj hoff h1
  have hcs : cs' = cs ++ (free g v.fat).take k := by
    refine hchain'.linked.unique ?_
    have := (hwritten.chain_first h).linked
    rwa [honly.fat] at this
  rw [hcs] at hj'
  rw [hfd] at hoff'
  have hlt := (List.getElem?_eq_some_iff.mp hj').1
  have hmul := Nat.mul_le_mul_right g.bytesPerCluster (Nat.succ_le_of_lt hlt)
  rw [Nat.succ_mul] at hmul
  dsimp only at hoff' ⊢
  refine ⟨k, hwritten, hfree, ?_, c', off', fd.wrOff + n, j', hfd, hoff', hj', by omega⟩
  rw [hsize]
  have := Nat.mod_le (fd.wrOff + n) (2 ^ 32)
  omega

/-- Where a `Write` leaves the descriptor and the size. -/
def EndsIn (g : BPB) (e : EntryPtr) (fd : FileDescriptor) (r : ℕ × FileDescriptor × Volume) (cs : List ℕ) : Prop :=
  r.2.2.fileSize e ≤ cs.length * g.bytesPerCluster ∧
    ∃ c' off' w j', r.2.1 = { fd with wrCluster := c', wrClusterOff := off', wrOff := w } ∧ off' ≤ g.bytesPerCluster ∧
      cs[j']? = some c' ∧ w ≤ j' * g.bytesPerCluster + off'

theorem SharedFile.endsIn (hg : g.WellFormed) (h : SharedFile g e s cs) (hopen : OpenOn g e cs fd)
    {r : ℕ × FileDescriptor × Volume} (hw : fd.write g s.volume buf = some r) :
    ∃ cs', IsChain g r.2.2.fat (r.2.2.firstCluster e) cs' ∧ EndsIn g e fd r cs' := by
  obtain ⟨hentry⟩ : fd.entry = e := hopen.entry
  rcases hopen.wrCluster with ⟨h0, hoff, hwr⟩ | ⟨j, hj, hle⟩
  · rcases h.empty_or_chain with ⟨hfirst, rfl, -⟩ | hchain
    · -- The first `Write` to the file makes its chain.
      obtain ⟨f, v₁, cs₁, hw₁, hnew⟩ := of_write_new hg h0 hfirst h.used hw
      obtain ⟨l, hwritten, -, hends⟩ :=
        written_position (j := 0) hg hw₁ hnew.written.chain hnew.used hnew.outside hnew.head
        (by dsimp only; omega) (by dsimp only; omega)
      exact ⟨_, hwritten.chain, hends⟩
    · rw [write_of_startWrite (startWrite_first h0 hchain _) hchain.first_ne_zero] at hw
      obtain ⟨l, hwritten, -, hends⟩ :=
        written_position (j := 0) hg hw hchain h.used h.outside hchain.linked.getElem?_zero
        (by dsimp only; omega) (by dsimp only; omega)
      exact ⟨_, hwritten.chain, hends⟩
  · have hchain := h.clusters.isChain_of_mem (List.mem_of_getElem? hj)
    obtain ⟨l, hwritten, -, hends⟩ := written_position hg hw hchain h.used h.outside hj hle hopen.wrClusterOff_le
    exact ⟨_, hwritten.chain, hends⟩

/-- **A `Write`** changes the clusters of the file only, and the descriptors stand in its chain as before. -/
theorem SharedFile.write (hg : g.WellFormed) (h : SharedFile g e s cs) (hopen : OpenOn g e cs fd)
    {r : ℕ × FileDescriptor × Volume} (hw : fd.write g s.volume buf = some r) :
    ∃ cs', Written g s.volume r.2.2 e cs' ∧ SharedFile g e { volume := r.2.2, fds := s.fds.set i r.2.1 } cs' := by
  obtain ⟨hentry⟩ : fd.entry = e := hopen.entry
  have hwr : fd.wrCluster = 0 ∨ fd.wrCluster ∈ cs :=
    hopen.wrCluster.imp (fun h0 => h0.1) fun ⟨j, hj, _⟩ => List.mem_of_getElem? hj
  obtain ⟨-, -, k, -, hwritten⟩ := write_spec hg h.clusters h.used h.outside hwr hopen.wrClusterOff_le hw
  obtain ⟨cs', hchain, hsize, c', off', w, j', hfd, hoff', hj', hle⟩ := h.endsIn hg hopen hw
  obtain rfl := hchain.linked.unique hwritten.chain.linked
  have hout := notMem_append_free (g := g) (k := k) h.used h.outside
  have hopen' : OpenOn g fd.entry (cs ++ (free g s.volume.fat).take k) r.2.1 := by
    have hold := hopen.append ((free g s.volume.fat).take k)
    rw [hfd]
    exact ⟨rfl, hold.rdOff_le, hold.rdClusterOff, hold.rdCluster, .inr ⟨j', hj', hle⟩, hoff'⟩
  refine ⟨_, hwritten, ⟨.inr hchain, ?_, hout, hsize, fun fd' hfd' => ?_⟩⟩
  · show r.2.2.fat fd.entry.cluster ≠ 0
    rw [hwritten.fat _ hout]
    exact h.used
  · rcases List.mem_or_eq_of_mem_set hfd' with hmem | rfl
    · exact (h.fds fd' hmem).append _
    · exact hopen'

/-! ### Any run -/

/-- **One call** stays within the file just when it suits, and then it keeps the invariant. -/
theorem SharedFile.step (hg : g.WellFormed) (h : SharedFile g e s cs) (op : FileOp) :
    (s.StaysWithin g e op ↔ s.Suits e op) ∧
      (s.Suits e op → ∀ s', s.performFile g e op = some s' → ∃ cs', SharedFile g e s' cs') := by
  cases op with
  | «open» =>
    refine ⟨Iff.rfl, fun _ s' hs' => ⟨cs, ?_⟩⟩
    cases hs'
    refine ⟨h.clusters, h.used, h.outside, h.size_le, fun fd hfd => ?_⟩
    rcases List.mem_append.mp hfd with hmem | hnew
    · exact h.fds fd hmem
    · rw [List.mem_singleton.mp hnew]
      exact OpenOn.new cs
  | read i len =>
    refine ⟨⟨fun hstays fd hfd => ?_, fun hsuits fd hfd => ?_⟩, fun hsuits s' hs' => ⟨cs, ?_⟩⟩
    · have hopen := h.fds fd (List.mem_of_getElem? hfd)
      obtain ⟨hle, -, cs', hcs', hmem⟩ := hstays fd hfd
      refine ⟨hle, fun hend => ?_⟩
      by_contra hne
      -- It would copy from the end of the chain.
      obtain ⟨m, hm⟩ := Nat.exists_eq_succ_of_ne_zero hne
      have hsize := fileSize_lt (v := s.volume) e
      have hfirst : kEndOfClusterchain ∈ fd.readVisits g s.volume len := by
        rw [FileDescriptor.readVisits, hopen.entry, subSize_of_le hle (by omega), hm, hend, if_neg (by decide),
          readLoopVisits]
        exact List.mem_cons_self
      have hin := hmem _ hfirst
      have hlt := ((hcs'.isChain_of_mem hin).lt _ hin).2
      have := hg.fatEntries_le
      rw [kEndOfClusterchain] at hlt
      omega
    · exact (h.read hg (h.fds fd (List.mem_of_getElem? hfd)) (hsuits fd hfd).1 (hsuits fd hfd).2).1
    · obtain ⟨fd, hfd, hs'⟩ := Option.bind_eq_some_iff.mp hs'
      obtain ⟨⟨bytes, fd'⟩, hread, hs'⟩ := Option.bind_eq_some_iff.mp hs'
      cases hs'
      have hopen := (h.read hg (h.fds fd (List.mem_of_getElem? hfd)) (hsuits fd hfd).1 (hsuits fd hfd).2).2 _ hread
      exact h.set hopen i
  | load i len offset =>
    refine ⟨⟨fun hstays fd hfd => (hstays fd hfd).offset_le, fun hsuits fd hfd => ?_⟩, fun _ s' hs' => ⟨cs, ?_⟩⟩
    · exact h.load hg (h.fds fd (List.mem_of_getElem? hfd)).entry (hsuits fd hfd)
    · obtain ⟨fd, hfd, hs'⟩ := Option.bind_eq_some_iff.mp hs'
      obtain ⟨bytes, -, hs'⟩ := Option.bind_eq_some_iff.mp hs'
      cases hs'
      exact h
  | write i buf =>
    refine ⟨⟨fun _ => trivial, fun _ fd r hfd hr => ?_⟩, fun _ s' hs' => ?_⟩
    · obtain ⟨cs', hwritten, hshared⟩ := h.write (i := i) hg (h.fds fd (List.mem_of_getElem? hfd)) hr
      exact ⟨cs', hshared.clusters, hwritten⟩
    · obtain ⟨fd, hfd, hs'⟩ := Option.bind_eq_some_iff.mp hs'
      obtain ⟨⟨n, fd', v'⟩, hwrite, hs'⟩ := Option.bind_eq_some_iff.mp hs'
      cases hs'
      obtain ⟨cs', -, hshared⟩ := h.write (i := i) hg (h.fds fd (List.mem_of_getElem? hfd)) hwrite
      exact ⟨cs', hshared⟩

theorem SharedFile.keeps_iff (hg : g.WellFormed) (h : SharedFile g e s cs) (ops : List FileOp) :
    s.Keeps g e ops ↔ s.AllSuit g e ops := by
  induction ops generalizing s cs with
  | nil => exact Iff.rfl
  | cons op ops ih =>
    obtain ⟨hiff, hnext⟩ := h.step hg op
    constructor
    · rintro ⟨hstays, hrest⟩
      have hsuits := hiff.mp hstays
      refine ⟨hsuits, fun s' hs' => ?_⟩
      obtain ⟨cs', h'⟩ := hnext hsuits s' hs'
      exact (ih h').mp (hrest s' hs')
    · rintro ⟨hsuits, hrest⟩
      refine ⟨hiff.mpr hsuits, fun s' hs' => ?_⟩
      obtain ⟨cs', h'⟩ := hnext hsuits s' hs'
      exact (ih h').mpr (hrest s' hs')

/-- **Several descriptors on one file** stay within it, whatever they do in whatever order, just when none of them
starts past its size or reads on from the end of the chain. -/
theorem shared_iff (hg : g.WellFormed) (h : FileAt g v e cs) (hsize : v.fileSize e ≤ cs.length * g.bytesPerCluster)
    (ops : List FileOp) :
    State.Keeps g e { volume := v, fds := [] } ops ↔ State.AllSuit g e { volume := v, fds := [] } ops := by
  have hshared : SharedFile g e { volume := v, fds := [] } cs := by
    refine ⟨?_, h.used, h.outside, hsize, fun fd hfd => by cases hfd⟩
    rcases h.chain with ⟨h0, rfl⟩ | hchain
    · exact .inl ⟨by simp, h0, rfl⟩
    · exact .inr hchain
  exact hshared.keeps_iff hg ops

/-- A small volume with a file of one cluster. -/
def smallFile (size : UInt8) : Volume where
  fat := fun cluster => if cluster = 2 ∨ cluster = 3 then kEndOfClusterchain else 0
  data := fun cluster o => if cluster = 2 then (if o = 26 then 3 else if o = 28 then size else 0) else 0

theorem fileAt_smallFile (size : UInt8) : FileAt smallBPB (smallFile size) ⟨2, 0⟩ [3] where
  inCluster := ⟨by decide, by decide⟩
  used := show (if 2 = 2 ∨ 2 = 3 then kEndOfClusterchain else 0) ≠ 0 by decide
  outside := by simp
  chain := .inr ⟨.last rfl, by decide⟩

/-- A file of ten bytes is read through two descriptors. -/
theorem shared_iff_reads :
    State.Keeps smallBPB ⟨2, 0⟩ { volume := smallFile 10, fds := [] } [.open, .open, .load 1 4096 3, .read 0 20] := by
  refine (shared_iff wellFormed_smallBPB (fileAt_smallFile 10) (by decide) _).mpr ?_
  refine ⟨trivial, fun s₁ hs₁ => ⟨trivial, fun s₂ hs₂ => ?_⟩⟩
  cases hs₁
  cases hs₂
  refine ⟨fun fd _ => by show 3 ≤ _; decide, fun s₃ hs₃ => ⟨fun fd hfd => ?_, fun s₄ _ => trivial⟩⟩
  simp only [State.performFile] at hs₃
  obtain ⟨fd₁, -, hs₃⟩ := Option.bind_eq_some_iff.mp hs₃
  obtain ⟨bytes, -, hs₃⟩ := Option.bind_eq_some_iff.mp hs₃
  cases hs₃
  cases hfd
  exact ⟨Nat.zero_le _, fun hc => by cases hc⟩

/-- A run of calls. -/
def State.runFile (g : BPB) (e : EntryPtr) (s : State) (ops : List FileOp) : Option State :=
  ops.foldlM (State.performFile g e) s

theorem State.Keeps.last {ops : List FileOp} {op : FileOp} (h : s.Keeps g e (ops ++ [op]))
    (hs : s.runFile g e ops = some s') :
    s'.StaysWithin g e op := by
  induction ops generalizing s with
  | nil =>
    cases hs
    exact h.1
  | cons op' ops ih =>
    obtain ⟨s₁, hs₁, hs⟩ := Option.bind_eq_some_iff.mp
      (show s.performFile g e op' >>= (runFile g e · ops) = some s' from hs)
    exact ih (h.2 s₁ hs₁) hs

/-- A descriptor has read ten bytes; the file is shortened to one byte through another; the first reads on. And: a
descriptor has read up to the end of a cluster, which is the end of the file; the file is made longer through
another; the first reads on. -/
theorem read_after_shortened :
    ¬ State.Keeps smallBPB ⟨2, 0⟩ { volume := smallFile 10, fds := [] }
      ([.open, .open, .read 0 10, .write 1 { bytes := [1] }] ++ [.read 0 5]) ∧
    ¬ State.Keeps smallBPB ⟨2, 0⟩ { volume := smallFile 64, fds := [] }
      ([.open, .open, .read 0 64, .write 1 { bytes := List.replicate 128 1 }] ++ [.read 0 5]) := by
  constructor
  · intro h
    have hrun : ((State.runFile smallBPB ⟨2, 0⟩ { volume := smallFile 10, fds := [] }
        [.open, .open, .read 0 10, .write 1 { bytes := [1] }]).any fun s =>
        s.fds[0]?.any fun fd => decide (s.volume.fileSize ⟨2, 0⟩ < fd.rdOff)) = true := by
      decide +kernel
    obtain ⟨s, hs, hany⟩ := Option.any_eq_true _ _ |>.mp hrun
    obtain ⟨fd, hfd, hlt⟩ := Option.any_eq_true _ _ |>.mp hany
    have hle := (h.last hs fd hfd).offset_le
    have := of_decide_eq_true hlt
    omega
  · intro h
    have hrun : ((State.runFile smallBPB ⟨2, 0⟩ { volume := smallFile 64, fds := [] }
        [.open, .open, .read 0 64, .write 1 { bytes := List.replicate 128 1 }]).any fun s =>
        s.fds[0]?.any fun fd => decide (kEndOfClusterchain ∈ fd.readVisits smallBPB s.volume 5)) = true := by
      decide +kernel
    obtain ⟨s, hs, hany⟩ := Option.any_eq_true _ _ |>.mp hrun
    obtain ⟨fd, hfd, hmem⟩ := Option.any_eq_true _ _ |>.mp hany
    obtain ⟨cs, hcs, hvisits⟩ := (h.last hs fd hfd).visits_mem
    have hin := hvisits _ (of_decide_eq_true hmem)
    have hlt := ((hcs.isChain_of_mem hin).lt _ hin).2
    rw [kEndOfClusterchain] at hlt
    exact absurd hlt (by decide)

end DuvuvurKernel.Fat
