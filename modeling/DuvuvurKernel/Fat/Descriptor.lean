import DuvuvurKernel.Fat.Allocation

/-!
# File descriptors

`fat::FileDescriptor`: reading and writing the file of a directory entry from one
position on.

## The model

A descriptor has the entry, and for reading and for writing an offset in the file, a
cluster and an offset in that cluster. A buffer to be written is its bytes and what
follows them in memory, which `Write` can read as well. The loops copy at least one
byte in each round that is not their last, or go on for ever; so a loop that has not
ended after as many rounds as there are bytes to copy has no result.
-/

namespace DuvuvurKernel.Fat

open Lib.Chains

/-- `FileDescriptor`. -/
structure FileDescriptor where
  /-- `fat_entry_`. -/
  entry : EntryPtr
  /-- `rd_off_`. -/
  rdOff : ℕ := 0
  /-- `rd_cluster_`. -/
  rdCluster : ℕ := 0
  /-- `rd_cluster_off_`. -/
  rdClusterOff : ℕ := 0
  /-- `wr_off_`. -/
  wrOff : ℕ := 0
  /-- `wr_cluster_`. -/
  wrCluster : ℕ := 0
  /-- `wr_cluster_off_`. -/
  wrClusterOff : ℕ := 0

/-- The difference of two values of `size_t`. -/
def subSize (a b : ℕ) : ℕ := (a + 2 ^ 64 - b) % 2 ^ 64

/-- A buffer in memory. -/
structure Buffer where
  /-- Its bytes. -/
  bytes : List UInt8
  /-- What is read past them. -/
  after : ℕ → UInt8 := fun _ => 0

/-- `n` bytes from offset `o` of a buffer on. -/
def Buffer.slice (buf : Buffer) (o n : ℕ) : List UInt8 :=
  (List.range n).map fun k => buf.bytes[o + k]?.getD (buf.after (o + k))

variable (g : BPB)

/-! ### Reading -/

/-- The part of the loop of `Read` that goes on to the next cluster after the end of one. -/
def leaveCluster (v : Volume) (cluster off : ℕ) : Option (ℕ × ℕ) :=
  if off = g.bytesPerCluster then (nextCluster g v cluster).map fun cluster => (cluster, 0)
  else some (cluster, off)

/-- The loop of `Read`: the bytes copied, and the cluster and the offset in it after them. -/
def readLoop (v : Volume) : ℕ → ℕ → ℕ → ℕ → Option (List UInt8 × ℕ × ℕ)
  | _, cluster, off, 0 => some ([], cluster, off)
  | 0, _, _, _ + 1 => none
  | fuel + 1, cluster, off, left + 1 => do
    let n := min (left + 1) (g.bytesPerCluster - off)
    let bytes ← v.read g cluster off n
    let (cluster, off) ← leaveCluster g v cluster (off + n)
    let (rest, cluster, off) ← readLoop v fuel cluster off (left + 1 - n)
    some (bytes ++ rest, cluster, off)

/-- `Read`: the bytes it copies into the buffer, whose number it returns. -/
def FileDescriptor.read (fd : FileDescriptor) (v : Volume) (len : ℕ) :
    Option (List UInt8 × FileDescriptor) := do
  let cluster := if fd.rdCluster = 0 then v.firstCluster fd.entry else fd.rdCluster
  let len := min len (subSize (v.fileSize fd.entry) fd.rdOff)
  let (bytes, cluster, off) ← readLoop g v len cluster fd.rdClusterOff len
  some (bytes, { fd with rdOff := fd.rdOff + bytes.length, rdCluster := cluster, rdClusterOff := off })

/-! ### Writing -/

/-- The lambda `num_cluster` of `Write`. -/
def numCluster (bytes : ℕ) : ℕ := (bytes + g.bytesPerCluster - 1) / g.bytesPerCluster

/-- The part of the loop of `Write` that goes on to another cluster when one is full; `left` bytes
are left to write. -/
def advance (v : Volume) (cluster off left : ℕ) : Option (ℕ × ℕ × Volume) :=
  if off = g.bytesPerCluster then do
    let next ← nextCluster g v cluster
    if next = kEndOfClusterchain then do
      let (cluster, v) ← extendCluster g v cluster (numCluster g left)
      some (cluster, 0, v)
    else some (next, 0, v)
  else some (cluster, off, v)

/-- The loop of `Write`, with `total` bytes written: their number at its end, the cluster and the
offset in it after them, and the volume. -/
def writeLoop (buf : Buffer) : ℕ → ℕ → ℕ → ℕ → Volume → Option (ℕ × ℕ × ℕ × Volume)
  | fuel, total, cluster, off, v =>
    if total < buf.bytes.length then
      match fuel with
      | 0 => none
      | fuel + 1 => do
        let (cluster, off, v) ← advance g v cluster off (buf.bytes.length - total)
        let n := min buf.bytes.length (g.bytesPerCluster - off)
        let v ← v.write g cluster off (buf.slice total n)
        writeLoop buf fuel (total + n) cluster (off + n) v
    else some (total, cluster, off, v)

/-- The first part of `Write`: the cluster it starts in. -/
def FileDescriptor.startWrite (fd : FileDescriptor) (v : Volume) (len : ℕ) : Option (ℕ × Volume) :=
  if fd.wrCluster ≠ 0 then some (fd.wrCluster, v)
  else if v.firstCluster fd.entry ≠ 0 then some (v.firstCluster fd.entry, v)
  else do
    let (cluster, v) ← allocateClusterChain g v (numCluster g len)
    let v ← v.setFirstCluster g fd.entry cluster
    some (cluster, v)

/-- `Write`: the number it returns, the descriptor, and the volume. -/
def FileDescriptor.write (fd : FileDescriptor) (v : Volume) (buf : Buffer) :
    Option (ℕ × FileDescriptor × Volume) := do
  let (cluster, v) ← fd.startWrite g v buf.bytes.length
  let (total, cluster, off, v) ← writeLoop g buf buf.bytes.length 0 cluster fd.wrClusterOff v
  let fd := { fd with wrCluster := cluster, wrClusterOff := off, wrOff := fd.wrOff + total }
  let v ← v.setFileSize g fd.entry fd.wrOff
  some (total, fd, v)

/-! ### What a write leaves alone -/

variable {g} {v v' v'' : Volume} {first k l : ℕ} {cs : List ℕ}

/-- The chain from `first` is continued by the first `k` free clusters, and nothing else changes in
the FAT. -/
structure Extends (g : BPB) (first : ℕ) (cs : List ℕ) (k : ℕ) (fat fat' : ℕ → ℕ) : Prop where
  le : k ≤ (free g fat).length
  chain : IsChain g fat' first (cs ++ (free g fat).take k)
  rest : free g fat' = (free g fat).drop k
  other : ∀ x, x ∉ cs ++ (free g fat).take k → fat' x = fat x

theorem Extends.refl (h : IsChain g v.fat first cs) : Extends g first cs 0 v.fat v.fat where
  le := Nat.zero_le _
  chain := by simpa using h
  rest := by simp
  other := fun _ _ => rfl

theorem Extends.trans {fat fat' fat'' : ℕ → ℕ} (h : Extends g first cs k fat fat')
    (h' : Extends g first (cs ++ (free g fat).take k) l fat' fat'') : Extends g first cs (k + l) fat fat'' where
  le := by
    have h1 := h.le
    have h2 := h'.le
    rw [h.rest, List.length_drop] at h2
    omega
  chain := by
    have := h'.chain
    rwa [h.rest, List.append_assoc, ← List.take_add] at this
  rest := by rw [h'.rest, h.rest, List.drop_drop]
  other := fun x hx => by
    have h2 := h'.other x
    rw [h.rest, List.append_assoc, ← List.take_add] at h2
    rw [h2 hx, h.other x fun hx' => hx ?_]
    rw [List.take_add, ← List.append_assoc]
    exact List.mem_append_left _ hx'

/-- `ExtendCluster` has no result when there are not enough free clusters. -/
theorem extendCluster_none {c : ℕ} (h : IsChain g v.fat first cs) (hc : c ∈ cs)
    (hk : (free g v.fat).length < k) : extendCluster g v c k = none := by
  obtain ⟨pre, ds, hds, hlinked⟩ := h.linked.of_mem hc
  have hchain : IsChain g v.fat c ds := ⟨hlinked, fun x hx => h.lt x (hds ▸ List.mem_append_right _ hx)⟩
  rw [extendCluster_eq hchain, if_neg (Nat.not_le.mpr hk)]

theorem getElem?_append_last (h : cs ≠ []) (ns : List ℕ) :
    (cs ++ ns)[cs.length + ns.length - 1]? = some (ns.getLastD (cs.getLast h)) := by
  rw [← List.length_append, ← List.getLast?_eq_getElem?, List.getLast?_append, List.getLast?_eq_some_getLast h,
    List.getLastD_eq_getLast?]
  cases ns.getLast? <;> rfl

/-- What `ExtendCluster` does to the chain of one of its clusters. -/
theorem extendCluster_spec {c : ℕ} (hg : g.WellFormed) (h : IsChain g v.fat first cs) (hc : c ∈ cs)
    (hk : k ≤ (free g v.fat).length) :
    ∃ c' v', extendCluster g v c k = some (c', v') ∧
      (cs ++ (free g v.fat).take k)[cs.length + k - 1]? = some c' ∧
      Extends g first cs k v.fat v'.fat ∧ v'.data = v.data := by
  obtain ⟨pre, ds, hds, hlinked⟩ := h.linked.of_mem hc
  have hchain : IsChain g v.fat c ds := ⟨hlinked, fun x hx => h.lt x (hds ▸ List.mem_append_right _ hx)⟩
  have hlast : ds.getLast hlinked.ne_nil = cs.getLast h.linked.ne_nil :=
    hlinked.getLast_eq_of_mem h.linked hlinked.mem_self hc
  have hdisj : ∀ x ∈ cs, x ∉ (free g v.fat).take k :=
    fun x hx hx' => h.notMem_free hx (List.mem_of_mem_take hx')
  have hlt : ∀ x ∈ (free g v.fat).take k, 2 ≤ x ∧ x < g.fatEntries :=
    fun x hx => (mem_free.mp (List.mem_of_mem_take hx)).1
  refine ⟨_, _, (extendCluster_eq hchain k).trans (if_pos hk), ?_, ⟨hk, ⟨?_, ?_⟩, ?_, fun x hx => ?_⟩, rfl⟩
  · have hlen : ((free g v.fat).take k).length = k := by rw [List.length_take]; omega
    have hlast' := getElem?_append_last h.linked.ne_nil ((free g v.fat).take k)
    rwa [hlen, ← hlast] at hlast'
  · simp only [hlast]
    refine linked_append_chainUp h.linked ?_ fun x hx => Nat.lt_of_lt_of_le (hlt x hx).2 hg.fatEntries_le
    exact List.nodup_append.mpr ⟨h.linked.nodup, nodup_free.sublist (List.take_sublist _ _),
      fun x hx y hy he => hdisj x hx (he ▸ hy)⟩
  · intro x hx
    rcases List.mem_append.mp hx with hx | hx
    · exact h.lt x hx
    · exact hlt x hx
  · exact free_chainUp_take (by rw [hlast]; exact h.fat_ne_zero (List.getLast_mem _)) k
  · refine chainUp_of_notMem fun hx' => hx ?_
    rcases List.mem_cons.mp hx' with rfl | hx'
    · rw [hlast]
      exact List.mem_append_left _ (List.getLast_mem _)
    · exact List.mem_append_right _ hx'

theorem nextCluster_getElem (h : IsChain g v.fat first cs) {j : ℕ} (hj : j < cs.length) :
    nextCluster g v cs[j] = some (cs[j + 1]?.getD kEndOfClusterchain) := by
  have hlt := (h.lt cs[j] (List.getElem_mem hj)).2
  have hnext := h.linked.next_getElem hj
  rw [nextCluster, fatAt_eq hlt, Option.map_some, Option.some.injEq]
  rw [next] at hnext
  split at hnext
  next he => simp [he, ← hnext]
  next he => simp [he, ← hnext]

theorem advance_of_ne {c off left : ℕ} (h : off ≠ g.bytesPerCluster) :
    advance g v c off left = some (c, off, v) := if_neg h

/-- At the end of a cluster, `Write` goes on in the next of the chain, or extends the chain. -/
theorem advance_full (hg : g.WellFormed) (h : IsChain g v.fat first cs) {c j left : ℕ} (hj : cs[j]? = some c) :
    advance g v c g.bytesPerCluster left = match cs[j + 1]? with
      | some c' => some (c', 0, v)
      | none => (extendCluster g v c (numCluster g left)).map fun p => (p.1, 0, p.2) := by
  obtain ⟨hlt, rfl⟩ := List.getElem?_eq_some_iff.mp hj
  rw [advance, if_pos rfl, nextCluster_getElem h hlt, Option.bind_eq_bind, Option.bind_some]
  cases hc : cs[j + 1]? with
  | none =>
    rw [Option.getD_none, if_pos rfl]
    cases extendCluster g v cs[j] (numCluster g left) <;> rfl
  | some c' =>
    rw [Option.getD_some, if_neg]
    have := (h.lt c' (List.mem_of_getElem? hc)).2
    have := hg.fatEntries_le
    rw [kEndOfClusterchain]
    omega

/-- Where the loop of `Write` goes on: in the same cluster, in the next of the chain, or in the last
of those the chain has been extended by. -/
theorem advance_cases (hg : g.WellFormed) (h : IsChain g v.fat first cs) {c j off left c' off' : ℕ}
    (hj : cs[j]? = some c) (ha : advance g v c off left = some (c', off', v')) :
    (off ≠ g.bytesPerCluster ∧ c' = c ∧ off' = off ∧ v' = v) ∨
    (off = g.bytesPerCluster ∧ cs[j + 1]? = some c' ∧ off' = 0 ∧ v' = v) ∨
    (off = g.bytesPerCluster ∧ j + 1 = cs.length ∧ off' = 0 ∧
      Extends g first cs (numCluster g left) v.fat v'.fat ∧ v'.data = v.data ∧
      (cs ++ (free g v.fat).take (numCluster g left))[j + numCluster g left]? = some c') := by
  by_cases hoff : off = g.bytesPerCluster
  · subst hoff
    rw [advance_full hg h hj] at ha
    cases hc : cs[j + 1]? with
    | some c₁ =>
      rw [hc] at ha
      cases ha
      exact Or.inr (Or.inl ⟨rfl, rfl, rfl, rfl⟩)
    | none =>
      rw [hc] at ha
      have hlt := (List.getElem?_eq_some_iff.mp hj).1
      have hlen : j + 1 = cs.length := by
        have := List.getElem?_eq_none_iff.mp hc
        omega
      refine Or.inr (Or.inr ⟨rfl, hlen, ?_⟩)
      rcases Nat.lt_or_ge (free g v.fat).length (numCluster g left) with hfull | hk
      · rw [extendCluster_none h (List.mem_of_getElem? hj) hfull] at ha
        cases ha
      · obtain ⟨c₁, v₁, h1, h2, h3, h4⟩ := extendCluster_spec hg h (List.mem_of_getElem? hj) hk
        rw [h1] at ha
        cases ha
        refine ⟨rfl, h3, h4, ?_⟩
        rwa [show j + numCluster g left = cs.length + numCluster g left - 1 by omega]
  · rw [advance_of_ne hoff] at ha
    cases ha
    exact Or.inl ⟨hoff, rfl, rfl, rfl⟩

/-- Wherever the loop of `Write` goes on, it does not go back in the chain. -/
theorem advance_frame (hg : g.WellFormed) (h : IsChain g v.fat first cs) {c j off left c' off' : ℕ}
    (hj : cs[j]? = some c) (hoff : off ≤ g.bytesPerCluster)
    (ha : advance g v c off left = some (c', off', v')) :
    ∃ k j', Extends g first cs k v.fat v'.fat ∧ (cs ++ (free g v.fat).take k)[j']? = some c' ∧ j ≤ j' ∧
      off' < g.bytesPerCluster ∧ v'.data = v.data := by
  rcases advance_cases hg h hj ha with ⟨hne, rfl, rfl, rfl⟩ | ⟨-, hc', rfl, rfl⟩ | ⟨-, -, rfl, hext, hdata, hc'⟩
  · exact ⟨0, j, .refl h, by simpa using hj, Nat.le_refl j, Nat.lt_of_le_of_ne hoff hne, rfl⟩
  · exact ⟨0, j + 1, .refl h, by simpa using hc', Nat.le_succ j, hg.bytesPerCluster_pos, rfl⟩
  · exact ⟨_, _, hext, hc', Nat.le_add_right _ _, hg.bytesPerCluster_pos, hdata⟩

theorem writeLoop_of_le {buf : Buffer} {fuel total c off : ℕ} (h : buf.bytes.length ≤ total) :
    writeLoop g buf fuel total c off v = some (total, c, off, v) := by
  cases fuel <;> rw [writeLoop, if_neg (Nat.not_lt.mpr h)]

/-- The first round of the loop of `Write`. -/
theorem of_writeLoop {buf : Buffer} {fuel total c off : ℕ} {r : ℕ × ℕ × ℕ × Volume}
    (hw : writeLoop g buf fuel total c off v = some r) (hlt : total < buf.bytes.length) :
    ∃ fuel', fuel = fuel' + 1 ∧ ∃ c₁ off₁ v₁ v₂,
      advance g v c off (buf.bytes.length - total) = some (c₁, off₁, v₁) ∧
      v₁.write g c₁ off₁ (buf.slice total (min buf.bytes.length (g.bytesPerCluster - off₁))) = some v₂ ∧
      writeLoop g buf fuel' (total + min buf.bytes.length (g.bytesPerCluster - off₁)) c₁
        (off₁ + min buf.bytes.length (g.bytesPerCluster - off₁)) v₂ = some r := by
  cases fuel with
  | zero =>
    rw [writeLoop, if_pos hlt] at hw
    cases hw
  | succ fuel =>
    rw [writeLoop, if_pos hlt] at hw
    obtain ⟨⟨c₁, off₁, v₁⟩, h1, hw⟩ := Option.bind_eq_some_iff.mp hw
    obtain ⟨v₂, h2, hw⟩ := Option.bind_eq_some_iff.mp hw
    exact ⟨fuel, rfl, c₁, off₁, v₁, v₂, h1, h2, hw⟩

/-- **What the loop of `Write` leaves alone**: started in the cluster at position `j` of the chain, it
extends the chain, and writes to clusters from that position on only. -/
theorem writeLoop_frame (hg : g.WellFormed) {buf : Buffer} {fuel total c off j t' c' off' : ℕ}
    (h : IsChain g v.fat first cs) (hj : cs[j]? = some c) (hoff : off ≤ g.bytesPerCluster)
    (hw : writeLoop g buf fuel total c off v = some (t', c', off', v')) :
    ∃ k j', Extends g first cs k v.fat v'.fat ∧ (cs ++ (free g v.fat).take k)[j']? = some c' ∧ j ≤ j' ∧
      off' ≤ g.bytesPerCluster ∧ ∀ x, x ∉ (cs ++ (free g v.fat).take k).drop j → v'.data x = v.data x := by
  induction fuel generalizing total c off j v cs with
  | zero =>
    rcases Nat.lt_or_ge total buf.bytes.length with hlt | hge
    · obtain ⟨_, hf, -⟩ := of_writeLoop hw hlt
      cases hf
    · rw [writeLoop_of_le hge] at hw
      cases hw
      exact ⟨0, j, .refl h, by simpa using hj, Nat.le_refl j, hoff, fun _ _ => rfl⟩
  | succ fuel ih =>
    rcases Nat.lt_or_ge total buf.bytes.length with hlt | hge
    · obtain ⟨_, hf, c₁, off₁, v₁, v₂, h1, h2, hw⟩ := of_writeLoop hw hlt
      cases hf
      obtain ⟨k, j₁, hext, hj₁, hle, hoff₁, hdata⟩ := advance_frame hg h hj hoff h1
      have hfat := fat_of_write h2
      obtain ⟨l, j', hext', hj', hle', hoff', hdata'⟩ := ih (hfat ▸ hext.chain) hj₁ (by omega) hw
      rw [hfat] at hext' hj' hdata'
      have hcs : cs ++ (free g v.fat).take k ++ (free g v₁.fat).take l = cs ++ (free g v.fat).take (k + l) := by
        rw [hext.rest, List.append_assoc, ← List.take_add]
      rw [hcs] at hj' hdata'
      refine ⟨k + l, j', hext.trans hext', hj', Nat.le_trans hle hle', hoff', fun x hx => ?_⟩
      have hx' : x ∉ (cs ++ (free g v.fat).take (k + l)).drop j₁ := fun hmem =>
        hx ((List.drop_sublist_drop_left _ hle).subset hmem)
      have hne : x ≠ c₁ := by
        rintro rfl
        refine hx' (List.mem_of_getElem? (i := 0) ?_)
        rw [List.getElem?_drop, Nat.add_zero, ← hcs]
        exact List.getElem?_append_left (List.getElem?_eq_some_iff.mp hj₁).1 ▸ hj₁
      rw [hdata' x hx', data_of_write_of_ne h2 hne, hdata]
    · rw [writeLoop_of_le hge] at hw
      cases hw
      exact ⟨0, j, .refl h, by simpa using hj, Nat.le_refl j, hoff, fun _ _ => rfl⟩

/-- The file of an entry has the clusters `cs`, and the entry lies elsewhere in the data area, in a
cluster in use. -/
structure FileAt (g : BPB) (v : Volume) (e : EntryPtr) (cs : List ℕ) : Prop where
  inCluster : e.InCluster g
  used : v.fat e.cluster ≠ 0
  outside : e.cluster ∉ cs
  chain : v.firstCluster e = 0 ∧ cs = [] ∨ IsChain g v.fat (v.firstCluster e) cs

variable {e : EntryPtr} {fd : FileDescriptor}

theorem IsChain.first_ne_zero (h : IsChain g v.fat first cs) : first ≠ 0 := by
  have := (h.lt first h.linked.mem_self).1
  omega

/-- What `AllocateClusterChain` does. -/
theorem allocateClusterChain_spec (hg : g.WellFormed) {n f : ℕ} {fs : List ℕ} (hf : free g v.fat = f :: fs)
    (hn : max 1 n ≤ (free g v.fat).length) :
    ∃ v', allocateClusterChain g v n = some (f, v') ∧ Extends g f [] (max 1 n) v.fat v'.fat ∧ v'.data = v.data := by
  have hlen : (free g v.fat).length = fs.length + 1 := by rw [hf, List.length_cons]
  have htake : (free g v.fat).take (max 1 n) = f :: fs.take (n - 1) := by
    rw [hf, show max 1 n = n - 1 + 1 by omega, List.take_succ_cons]
  have hnodup : (f :: fs.take (n - 1)).Nodup := htake ▸ nodup_free.sublist (List.take_sublist _ _)
  have hmem : ∀ x ∈ f :: fs.take (n - 1), 2 ≤ x ∧ x < g.fatEntries := fun x hx =>
    (mem_free.mp (List.mem_of_mem_take (htake ▸ hx))).1
  refine ⟨_, (allocateClusterChain_eq n hf).trans (if_pos (by omega)), ⟨hn, ⟨?_, ?_⟩, ?_, fun x hx => ?_⟩, rfl⟩
  · rw [List.nil_append, htake]
    exact linked_chainUp hnodup fun x hx =>
      Nat.lt_of_lt_of_le (hmem x (List.mem_cons_of_mem _ hx)).2 hg.fatEntries_le
  · rw [List.nil_append, htake]
    exact hmem
  · have hfree := free_update_head hf
    have hchain : free g (chainUp (Function.update v.fat f kEndOfClusterchain) f _) = _ :=
      free_chainUp_take (by simp [kEndOfClusterchain]) (n - 1)
    rw [hfree, chainUp_update] at hchain
    rw [hchain, hf, show max 1 n = n - 1 + 1 by omega, List.drop_succ_cons]
  · rw [List.nil_append, htake] at hx
    exact chainUp_of_notMem hx

/-- The first `Write` to a file without clusters makes a chain for it. -/
theorem startWrite_new (hg : g.WellFormed) (hw : fd.wrCluster = 0) (h0 : v.firstCluster fd.entry = 0)
    (he : fd.entry.InCluster g) {len f : ℕ} {fs : List ℕ} (hf : free g v.fat = f :: fs)
    (hk : max 1 (numCluster g len) ≤ (free g v.fat).length) :
    ∃ v', fd.startWrite g v len = some (f, v') ∧ Extends g f [] (max 1 (numCluster g len)) v.fat v'.fat ∧
      v'.firstCluster fd.entry = f ∧ OnlyEntry fd.entry ⟨v'.fat, v.data⟩ v' ∧
      ∀ k, k ∉ [20, 21, 26, 27] → v'.byte fd.entry k = v.byte fd.entry k := by
  obtain ⟨v₁, h1, h2, h3⟩ := allocateClusterChain_spec hg hf hk
  obtain ⟨v₂, h4⟩ : ∃ v₂, v₁.setFirstCluster g fd.entry f = some v₂ := setFirstCluster_eq he
  obtain ⟨h5, h6, h7⟩ := of_setFirstCluster h4
  have hlt : f < 2 ^ 32 := by
    have hmem : f ∈ free g v.fat := hf ▸ List.mem_cons_self
    have := (mem_free.mp hmem).1.2
    have := hg.fatEntries_le
    omega
  refine ⟨v₂, ?_, h5.fat ▸ h2, by rw [h6, Nat.mod_eq_of_lt hlt], ⟨rfl, fun c o hco => ?_⟩, fun k hk' => ?_⟩
  · simp [FileDescriptor.startWrite, hw, h0, h1, h4]
  · rw [h5.data c o hco, h3]
  · rw [h7 k hk', Volume.byte, Volume.byte, h3]

theorem startWrite_new_none (hw : fd.wrCluster = 0) (h0 : v.firstCluster fd.entry = 0) {len : ℕ}
    (hk : (free g v.fat).length < max 1 (numCluster g len)) : fd.startWrite g v len = none := by
  have hnone : allocateClusterChain g v (numCluster g len) = none := by
    cases hf : free g v.fat with
    | nil => rw [allocateClusterChain, firstFree_eq_head?, hf]; rfl
    | cons f fs =>
      rw [hf, List.length_cons] at hk
      rw [allocateClusterChain_eq _ hf, if_neg (by omega)]
  simp [FileDescriptor.startWrite, hw, h0, hnone]

theorem startWrite_first (hw : fd.wrCluster = 0) (h : IsChain g v.fat (v.firstCluster fd.entry) cs) (len : ℕ) :
    fd.startWrite g v len = some (v.firstCluster fd.entry, v) := by
  rw [FileDescriptor.startWrite, if_neg (by simp [hw]), if_pos h.first_ne_zero]

theorem startWrite_later (hw : fd.wrCluster ≠ 0) (len : ℕ) : fd.startWrite g v len = some (fd.wrCluster, v) := by
  rw [FileDescriptor.startWrite, if_pos hw]

end DuvuvurKernel.Fat
