import DuvuvurKernel.Fat.SharedFile

/-!
# Where a descriptor writes

`Write` keeps the offset in the file, a cluster and the offset in the cluster, and goes on to the next cluster
only when there is something to be written to it. So a descriptor that has written `wr_off_` bytes should stand in
the cluster of the last of them (`InPlace`).

`ExtendCluster` returns the last of the new clusters, and `Write` goes on there. The chain that
`AllocateClusterChain` makes for a file without clusters is entered at its first.

**Result** (`keepsPlace_iff`): over any sequence of `Write`s, the descriptor stands in its place
after each just when none of them makes a chain grow by more than one cluster. From a `Write` that does
on, it stands too far along the chain.
-/

namespace DuvuvurKernel.Fat

variable (g : BPB)

/-- A descriptor that has written something stands in the cluster of the last byte, behind it. -/
def FileDescriptor.InPlace (fd : FileDescriptor) (v : Volume) : Prop :=
  0 < fd.wrOff → ∃ cs, IsChain g v.fat (v.firstCluster fd.entry) cs ∧
    cs[(fd.wrOff - 1) / g.bytesPerCluster]? = some fd.wrCluster ∧
    fd.wrClusterOff = fd.wrOff - g.bytesPerCluster * ((fd.wrOff - 1) / g.bytesPerCluster)

/-- So it is after each `Write` of a sequence. -/
def FileDescriptor.KeepsPlace : FileDescriptor → Volume → List Buffer → Prop
  | _, _, [] => True
  | fd, v, buf :: bufs => ∀ n fd' v', fd.write g v buf = some (n, fd', v') → fd'.InPlace g v' ∧ fd'.KeepsPlace v' bufs

/-- A `Write` of `len` bytes needs at most one cluster more than the chain has. -/
def FileDescriptor.GrowsByOne (fd : FileDescriptor) (v : Volume) (len : ℕ) : Prop :=
  ∀ cs, IsChain g v.fat (v.firstCluster fd.entry) cs → numCluster g (fd.wrOff + len) ≤ cs.length + 1

/-- So does each `Write` of a sequence. -/
def FileDescriptor.AllGrowByOne : FileDescriptor → Volume → List Buffer → Prop
  | _, _, [] => True
  | fd, v, buf :: bufs => ∀ n fd' v', fd.write g v buf = some (n, fd', v') →
    fd.GrowsByOne g v buf.bytes.length ∧ fd'.AllGrowByOne v' bufs

/-- The invariant of a descriptor in its place. Before the first byte it may have no cluster yet. -/
structure FileDescriptor.Placed (fd : FileDescriptor) (v : Volume) (cs : List ℕ) : Prop where
  clusters : Clusters g v (some fd.entry) cs
  used : v.fat fd.entry.cluster ≠ 0
  outside : fd.entry.cluster ∉ cs
  off_le : fd.wrClusterOff ≤ g.bytesPerCluster
  off_pos : 0 < fd.wrOff → 0 < fd.wrClusterOff
  position : fd.wrCluster = 0 ∧ fd.wrClusterOff = 0 ∧ fd.wrOff = 0 ∨
    ∃ j, cs[j]? = some fd.wrCluster ∧ j * g.bytesPerCluster + fd.wrClusterOff = fd.wrOff

variable {g} {v v' : Volume} {e : EntryPtr} {fd fd' : FileDescriptor} {buf : Buffer} {cs : List ℕ}
  {first fuel total c off t' c' off' j n : ℕ}

/-! ### The loop -/

/-- A loop that makes the chain grow by one cluster at most moves on by what it writes. -/
theorem writeLoop_inPlace (hg : g.WellFormed) (h : IsChain g v.fat first cs) (hj : cs[j]? = some c)
    (hoff : off ≤ g.bytesPerCluster)
    (hfits : j * g.bytesPerCluster + off + (buf.bytes.length - total) ≤ (cs.length + 1) * g.bytesPerCluster)
    (hw : writeLoop g buf fuel total c off v = some (t', c', off', v')) :
    ∃ cs' j', IsChain g v'.fat first cs' ∧ cs'[j']? = some c' ∧
      j' * g.bytesPerCluster + off' + total = j * g.bytesPerCluster + off + t' ∧
      (total < buf.bytes.length ∨ 0 < off → 0 < off') := by
  have hb := hg.bytesPerCluster_pos
  induction fuel generalizing total c off j v cs with
  | zero =>
    rcases Nat.lt_or_ge total buf.bytes.length with hlt | hge
    · obtain ⟨_, hf, -⟩ := of_writeLoop hw hlt
      cases hf
    · rw [writeLoop_of_le hge] at hw
      cases hw
      exact ⟨cs, j, h, hj, rfl, fun hpos => by omega⟩
  | succ fuel ih =>
    rcases Nat.lt_or_ge total buf.bytes.length with hlt | hge
    · obtain ⟨_, hf, c₁, off₁, v₁, v₂, h1, h2, hw⟩ := of_writeLoop hw hlt
      cases hf
      generalize hn : min buf.bytes.length (g.bytesPerCluster - off₁) = n at h2 hw
      have hfat := fat_of_write h2
      -- the cluster that this round writes to
      obtain ⟨cs₁, j₁, hchain, hj₁, hoff₁, hmove, hlen⟩ : ∃ cs₁ j₁, IsChain g v₁.fat first cs₁ ∧ cs₁[j₁]? = some c₁ ∧
          off₁ < g.bytesPerCluster ∧ j₁ * g.bytesPerCluster + off₁ = j * g.bytesPerCluster + off ∧
          cs.length ≤ cs₁.length := by
        rcases advance_cases hg h hj h1 with
          ⟨hne, rfl, rfl, rfl⟩ | ⟨rfl, hnext, rfl, rfl⟩ | ⟨rfl, hlast, rfl, hext, -, hnew⟩
        · exact ⟨cs, j, h, hj, Nat.lt_of_le_of_ne hoff hne, rfl, Nat.le_refl _⟩
        · exact ⟨cs, j + 1, h, hnext, hb, by rw [Nat.succ_mul, Nat.add_zero], Nat.le_refl _⟩
        · have hone : numCluster g (buf.bytes.length - total) = 1 := by
            refine numCluster_eq_one hb (by omega) ?_
            rw [← hlast, Nat.succ_mul, Nat.succ_mul] at hfits
            omega
          rw [hone] at hext hnew
          refine ⟨_, j + 1, hext.chain, hnew, hb, by rw [Nat.succ_mul, Nat.add_zero], ?_⟩
          rw [List.length_append]
          exact Nat.le_add_right _ _
      have hmul := Nat.mul_le_mul_right g.bytesPerCluster hlen
      have hlt₁ := Nat.mul_le_mul_right g.bytesPerCluster (Nat.succ_le_of_lt (List.getElem?_eq_some_iff.mp hj₁).1)
      rw [Nat.succ_mul] at hlt₁ hfits
      obtain ⟨cs', j', hchain', hj', hpos', hoff'⟩ := ih (hfat ▸ hchain) hj₁ (by omega)
        (by rw [Nat.succ_mul]; omega) hw
      exact ⟨cs', j', hchain', hj', by omega, fun _ => hoff' (.inr (by omega))⟩
    · rw [writeLoop_of_le hge] at hw
      cases hw
      exact ⟨cs, j, h, hj, rfl, fun hpos => by omega⟩

/-- A loop that makes the chain grow by more moves on by more. -/
theorem writeLoop_overtakes (hg : g.WellFormed) (h : IsChain g v.fat first cs) (hj : cs[j]? = some c)
    (hoff : off ≤ g.bytesPerCluster)
    (hfar : (cs.length + 1) * g.bytesPerCluster < j * g.bytesPerCluster + off + (buf.bytes.length - total))
    (hw : writeLoop g buf fuel total c off v = some (t', c', off', v')) :
    total < t' ∧ ∃ cs' j', IsChain g v'.fat first cs' ∧ cs'[j']? = some c' ∧
      j * g.bytesPerCluster + off + t' < j' * g.bytesPerCluster + off' + total := by
  have hb := hg.bytesPerCluster_pos
  have hlt := Nat.mul_le_mul_right g.bytesPerCluster (Nat.succ_le_of_lt (List.getElem?_eq_some_iff.mp hj).1)
  rw [Nat.succ_mul] at hlt hfar
  induction fuel generalizing total c off j v with
  | zero =>
    obtain ⟨_, hf, -⟩ := of_writeLoop hw (by omega)
    cases hf
  | succ fuel ih =>
    obtain ⟨_, hf, c₁, off₁, v₁, v₂, h1, h2, h3⟩ := of_writeLoop hw (by omega)
    cases hf
    generalize hn : min buf.bytes.length (g.bytesPerCluster - off₁) = n at h2 h3
    have hfat := fat_of_write h2
    -- as long as the chain does not grow
    have hround : ∀ j₁, cs[j₁]? = some c₁ → off₁ < g.bytesPerCluster → v₁ = v →
        j₁ * g.bytesPerCluster + off₁ = j * g.bytesPerCluster + off →
        total < t' ∧ ∃ cs' j', IsChain g v'.fat first cs' ∧ cs'[j']? = some c' ∧
          j * g.bytesPerCluster + off + t' < j' * g.bytesPerCluster + off' + total := by
      rintro j₁ hj₁ hoff₁ rfl hmove
      have hlt₁ := Nat.mul_le_mul_right g.bytesPerCluster (Nat.succ_le_of_lt (List.getElem?_eq_some_iff.mp hj₁).1)
      rw [Nat.succ_mul] at hlt₁
      obtain ⟨htotal, cs', j', hchain, hj', hpos⟩ := ih (hfat ▸ h) hj₁ (by omega) (by omega) h3 hlt₁
      exact ⟨by omega, cs', j', hchain, hj', by omega⟩
    rcases advance_cases hg h hj h1 with
      ⟨hne, rfl, rfl, rfl⟩ | ⟨rfl, hnext, rfl, rfl⟩ | ⟨rfl, hlast, rfl, hext, -, hnew⟩
    · exact hround j hj (Nat.lt_of_le_of_ne hoff hne) rfl rfl
    · exact hround (j + 1) hnext hb rfl (by rw [Nat.succ_mul, Nat.add_zero])
    · have htwo : 1 < numCluster g (buf.bytes.length - total) := by
        rw [lt_numCluster_iff hb]
        rw [← hlast, Nat.succ_mul] at hfar
        omega
      have hskip := Nat.mul_le_mul_right g.bytesPerCluster (Nat.add_le_add_left htwo j)
      rw [Nat.add_mul, Nat.succ_mul, Nat.one_mul] at hskip
      obtain ⟨htotal, cs', j', hchain, hj', hpos⟩ := writeLoop_position hg (hfat ▸ hext.chain) hnew (by omega) h3
      exact ⟨by omega, cs', j', hchain, hj', by omega⟩

/-! ### A `Write` -/

/-- The position along a chain of the last of `w` bytes written. -/
theorem pred_div_eq (hoff : off ≤ g.bytesPerCluster) (hpos : 0 < off) (hw : j * g.bytesPerCluster + off = n) :
    (n - 1) / g.bytesPerCluster = j := by
  rw [← hw, Nat.mul_comm, Nat.add_sub_assoc hpos, Nat.mul_add_div (by omega), Nat.div_eq_of_lt (by omega), Nat.add_zero]

theorem FileDescriptor.Placed.inPlace (h : fd.Placed g v cs) : fd.InPlace g v := by
  intro hpos
  rcases h.position with ⟨-, -, h0⟩ | ⟨j, hj, hpj⟩
  · omega
  · refine ⟨cs, h.clusters.isChain_of_mem (List.mem_of_getElem? hj), ?_⟩
    rw [pred_div_eq h.off_le (h.off_pos hpos) hpj, Nat.mul_comm]
    exact ⟨hj, by omega⟩

/-- A descriptor that stands too far along is not in its place. -/
theorem not_inPlace (h : IsChain g v.fat (v.firstCluster fd.entry) cs) (hj : cs[j]? = some fd.wrCluster)
    (hpos : 0 < fd.wrOff) (hfar : fd.wrOff < j * g.bytesPerCluster + fd.wrClusterOff) : ¬ fd.InPlace g v := by
  intro hin
  obtain ⟨cs', hchain, hat, hoff⟩ := hin hpos
  obtain rfl := hchain.linked.unique h.linked
  obtain ⟨hlt, hget⟩ := List.getElem?_eq_some_iff.mp hj
  obtain ⟨hlt', hget'⟩ := List.getElem?_eq_some_iff.mp hat
  obtain rfl : (fd.wrOff - 1) / g.bytesPerCluster = j :=
    (List.Nodup.getElem_inj_iff hchain.linked.nodup).mp (hget'.trans hget.symm)
  have hle := Nat.mul_div_le (fd.wrOff - 1) g.bytesPerCluster
  rw [Nat.mul_comm] at hfar
  omega

/-- A `Write` starts in a cluster of the file, in the first one if nothing has been written yet. -/
theorem FileDescriptor.Placed.start (hg : g.WellFormed) (h : fd.Placed g v cs) {r : ℕ × FileDescriptor × Volume}
    (hw : fd.write g v buf = some r) :
    ∃ c v₁ cs₁ j, FileDescriptor.write g { fd with wrCluster := c } v₁ buf = some r ∧
      IsChain g v₁.fat (v₁.firstCluster fd.entry) cs₁ ∧ v₁.fat fd.entry.cluster ≠ 0 ∧ fd.entry.cluster ∉ cs₁ ∧
      cs₁[j]? = some c ∧ j * g.bytesPerCluster + fd.wrClusterOff = fd.wrOff ∧
      (fd.GrowsByOne g v buf.bytes.length ↔ numCluster g (fd.wrOff + buf.bytes.length) ≤ cs₁.length + 1) := by
  have hiff : ∀ {cs}, IsChain g v.fat (v.firstCluster fd.entry) cs →
      (fd.GrowsByOne g v buf.bytes.length ↔ numCluster g (fd.wrOff + buf.bytes.length) ≤ cs.length + 1) := by
    intro cs hchain
    refine ⟨fun hgrows => hgrows cs hchain, fun hle cs' hchain' => ?_⟩
    obtain rfl := hchain.linked.unique hchain'.linked
    exact hle
  rcases h.position with ⟨h0, hoff, hwr⟩ | ⟨j, hj, hpos⟩
  · rcases h.clusters with ⟨-, hfirst, rfl⟩ | hchain
    · -- The chain is a new one, and long enough.
      obtain ⟨f, v₁, cs₁, hw₁, hnew⟩ := of_write_new hg h0 hfirst h.used hw
      refine ⟨f, v₁, cs₁, 0, hw₁, hnew.written.chain, hnew.used, hnew.outside, hnew.head, by omega, ?_⟩
      rw [hnew.length, hwr, Nat.zero_add]
      exact ⟨fun _ => by omega, fun _ cs' hchain' => absurd hfirst hchain'.first_ne_zero⟩
    · refine ⟨v.firstCluster fd.entry, v, cs, 0, ?_, hchain, h.used, h.outside, hchain.linked.getElem?_zero, by omega,
        hiff hchain⟩
      rw [← write_of_startWrite (startWrite_first h0 hchain _) hchain.first_ne_zero, hw]
  · have hchain : IsChain g v.fat (v.firstCluster fd.entry) cs := h.clusters.isChain_of_mem (List.mem_of_getElem? hj)
    exact ⟨fd.wrCluster, v, cs, j, hw, hchain, h.used, h.outside, hj, hpos, hiff hchain⟩

/-- What a `Write` from a cluster of the file on leaves. -/
theorem write_stands (hg : g.WellFormed) (hw : fd.write g v buf = some (n, fd', v'))
    (h : IsChain g v.fat (v.firstCluster fd.entry) cs) (hu : v.fat fd.entry.cluster ≠ 0) (ho : fd.entry.cluster ∉ cs)
    (hj : cs[j]? = some fd.wrCluster) (hoff : fd.wrClusterOff ≤ g.bytesPerCluster) :
    ∃ c' off' v₁ cs', writeLoop g buf buf.bytes.length 0 fd.wrCluster fd.wrClusterOff v = some (n, c', off', v₁) ∧
      fd' = { fd with wrCluster := c', wrClusterOff := off', wrOff := fd.wrOff + n } ∧ off' ≤ g.bytesPerCluster ∧
      IsChain g v'.fat (v'.firstCluster fd.entry) cs' ∧ v'.fat fd.entry.cluster ≠ 0 ∧ fd.entry.cluster ∉ cs' ∧
      ∀ cs₁, IsChain g v₁.fat (v.firstCluster fd.entry) cs₁ → cs₁ = cs' := by
  have hne : fd.wrCluster ≠ 0 := by
    have := (h.lt _ (List.mem_of_getElem? hj)).1
    omega
  obtain ⟨hentry, hoff', k, -, hwritten, hfree⟩ := written_of_mem hg hw h hu ho (List.mem_of_getElem? hj) hoff
  obtain ⟨c', off', v₁, h1, h2, hfd⟩ := of_write_later hne hw
  obtain ⟨honly, -, -⟩ := of_setFileSize h2
  have hout := notMem_append_free (g := g) (k := k) hu ho
  have hchain := (hwritten.chain_first h).linked
  rw [honly.fat] at hchain
  rw [hfd] at hoff'
  refine ⟨c', off', v₁, _, h1, hfd, hoff', hwritten.chain, ?_, hout, fun cs₁ hcs₁ => hcs₁.linked.unique hchain⟩
  rw [hwritten.fat _ hout]
  exact hu

/-- **One `Write`** keeps the descriptor in its place just when it makes the chain grow by one cluster at most. -/
theorem FileDescriptor.Placed.write (hg : g.WellFormed) (h : fd.Placed g v cs)
    (hw : fd.write g v buf = some (n, fd', v')) :
    (fd.GrowsByOne g v buf.bytes.length → ∃ cs', fd'.Placed g v' cs') ∧
      (¬ fd.GrowsByOne g v buf.bytes.length → ¬ fd'.InPlace g v') := by
  have hb := hg.bytesPerCluster_pos
  obtain ⟨c, v₀, cs₀, j, hw₀, hchain, hu, ho, hj, hpos, hiff⟩ := h.start hg hw
  obtain ⟨c', off', v₁, cs', hloop, rfl, hoff', hchain', hu', ho', hsame⟩ :=
    write_stands hg hw₀ hchain hu ho hj h.off_le
  rw [hiff]
  constructor
  · intro hgrows
    rw [numCluster_le_iff hb] at hgrows
    obtain ⟨cs₁, j', hchain₁, hj', hmove, hpos'⟩ := writeLoop_inPlace hg hchain hj h.off_le
      (by omega) hloop
    obtain rfl := hsame cs₁ hchain₁
    refine ⟨cs₁, .inr hchain', hu', ho', hoff', fun hwr => ?_, .inr ⟨j', hj', ?_⟩⟩
    · rcases Nat.eq_zero_or_pos fd.wrOff with h0 | hold
      · refine hpos' (.inl ?_)
        by_contra hlen
        rw [writeLoop_of_le (by omega)] at hloop
        cases hloop
        dsimp only at hwr
        omega
      · exact hpos' (.inr (h.off_pos hold))
    · dsimp only at hmove ⊢
      omega
  · intro hgrows
    rw [Nat.not_le, lt_numCluster_iff hb] at hgrows
    obtain ⟨hn, cs₁, j', hchain₁, hj', hmove⟩ := writeLoop_overtakes hg hchain hj h.off_le
      (by omega) hloop
    obtain rfl := hsame cs₁ hchain₁
    refine not_inPlace hchain' hj' ?_ ?_
    · dsimp only
      omega
    · dsimp only at hmove ⊢
      omega

/-! ### Any sequence -/

theorem FileDescriptor.Placed.keeps_iff (hg : g.WellFormed) (h : fd.Placed g v cs) (bufs : List Buffer) :
    fd.KeepsPlace g v bufs ↔ fd.AllGrowByOne g v bufs := by
  induction bufs generalizing fd v cs with
  | nil => exact Iff.rfl
  | cons buf bufs ih =>
    rw [FileDescriptor.KeepsPlace, FileDescriptor.AllGrowByOne]
    constructor
    · intro hkeeps n fd' v' hw
      obtain ⟨hin, hrest⟩ := hkeeps n fd' v' hw
      have hgrows : fd.GrowsByOne g v buf.bytes.length := by
        by_contra hnot
        exact (h.write hg hw).2 hnot hin
      obtain ⟨cs', h'⟩ := (h.write hg hw).1 hgrows
      exact ⟨hgrows, (ih h').mp hrest⟩
    · intro hgrow n fd' v' hw
      obtain ⟨hgrows, hrest⟩ := hgrow n fd' v' hw
      obtain ⟨cs', h'⟩ := (h.write hg hw).1 hgrows
      exact ⟨h'.inPlace, (ih h').mpr hrest⟩

/-- **A new descriptor** on a file stands in its place after every `Write` of a sequence, just when none of
them makes a chain grow by more than one cluster. -/
theorem keepsPlace_iff (hg : g.WellFormed) (h : FileAt g v e cs) (bufs : List Buffer) :
    FileDescriptor.KeepsPlace g { entry := e } v bufs ↔ FileDescriptor.AllGrowByOne g { entry := e } v bufs := by
  have hplaced : FileDescriptor.Placed g { entry := e } v cs := by
    refine ⟨h.chain.imp_left fun ⟨h0, hcs⟩ => ⟨by simp, h0, hcs⟩, h.used, h.outside, Nat.zero_le _, ?_,
      .inl ⟨rfl, rfl, rfl⟩⟩
    exact fun hpos => absurd hpos (Nat.lt_irrefl 0)
  exact hplaced.keeps_iff hg bufs

/-- A hundred bytes over a file of one cluster. -/
theorem keepsPlace_smallFile :
    FileDescriptor.KeepsPlace smallBPB { entry := ⟨2, 0⟩ } (smallFile 10) [{ bytes := List.replicate 100 1 }] ∧
      (FileDescriptor.write smallBPB { entry := ⟨2, 0⟩ } (smallFile 10) { bytes := List.replicate 100 1 }).isSome := by
  refine ⟨(keepsPlace_iff wellFormed_smallBPB (fileAt_smallFile 10) _).mpr ?_, by decide +kernel⟩
  refine fun n fd' v' _ => ⟨fun cs hchain => ?_, trivial⟩
  obtain rfl : cs = [3] := hchain.linked.unique (.last rfl)
  rw [List.length_replicate]
  decide

/-- Two clusters more than the file has are written at once: the first new one, 4, is left out, and the descriptor
ends in 6 with three clusters written. -/
theorem not_keepsPlace_emptyVolume : smallBPB.WellFormed ∧ FileAt smallBPB emptyVolume ⟨2, 0⟩ [] ∧
    ¬ FileDescriptor.KeepsPlace smallBPB { entry := ⟨2, 0⟩ } emptyVolume
      [{ bytes := List.replicate 64 1 }, { bytes := List.replicate 128 1 }] := by
  refine ⟨wellFormed_smallBPB, fileAt_emptyVolume, fun hkeeps => ?_⟩
  have hrun : ((FileDescriptor.write smallBPB { entry := ⟨2, 0⟩ } emptyVolume
      { bytes := List.replicate 64 1 }).any fun r =>
        (r.2.1.write smallBPB r.2.2 { bytes := List.replicate 128 1 }).any fun r => decide
          (r.2.1.wrOff = 192 ∧ r.2.1.wrCluster = 6 ∧ r.2.1.wrClusterOff = 64 ∧ r.2.2.firstCluster r.2.1.entry = 3 ∧
            next r.2.2.fat 3 = some 4 ∧ next r.2.2.fat 4 = some 5 ∧ next r.2.2.fat 5 = some 6 ∧
            next r.2.2.fat 6 = none)) = true := by
    decide +kernel
  obtain ⟨⟨n₁, fd₁, v₁⟩, hw₁, hrun⟩ := Option.any_eq_true _ _ |>.mp hrun
  obtain ⟨⟨n₂, fd₂, v₂⟩, hw₂, hrun⟩ := Option.any_eq_true _ _ |>.mp hrun
  obtain ⟨hwr, hc, hoff, hfirst, h3, h4, h5, h6⟩ := of_decide_eq_true hrun
  have hchain : IsChain smallBPB v₂.fat (v₂.firstCluster fd₂.entry) [3, 4, 5, 6] := by
    rw [hfirst]
    exact ⟨.cons h3 (.cons h4 (.cons h5 (.last h6))), by decide⟩
  refine not_inPlace (j := 3) hchain (congrArg some hc.symm) ?_ ?_ ((hkeeps n₁ fd₁ v₁ hw₁).2 n₂ fd₂ v₂ hw₂).1
  · rw [hwr]
    decide
  · rw [hwr, hoff]
    decide

end DuvuvurKernel.Fat
