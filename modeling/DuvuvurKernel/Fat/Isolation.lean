import DuvuvurKernel.Fat.RoundTrip
import DuvuvurKernel.Fat.Directory

/-!
# Files stay apart

The entries of a volume that are in use form a tree below the root directory. In a
well-formed volume their chains end and have no cluster in common (`Isolated`). A
`Write` through a descriptor on one of the files keeps it so and changes no other file.

`CreateFile` does so only under two conditions, neither of which it checks. The entry it
finds for the parent has to be a directory, or the content of a file is taken for
entries. And since it leaves the first cluster of the slot it reuses as it is, that
has to be harmless: 0, or the start of a chain that no entry in use shares.

## The tree

An owner of clusters is an entry, or the root directory (`none`). A slot is in use if it
is neither free nor deleted, no part of a long name, and not one of the entries
`.` and `..`, which are other names of a directory and its parent. What follows the
first free slot of a directory is free as well, so no order of the slots is needed.
-/

namespace DuvuvurKernel.Fat

open Lib.Chains

variable (g : BPB) (v : Volume)

/-- The first cluster of an owner. -/
def Volume.firstOf : Option EntryPtr → ℕ
  | none => g.rootCluster
  | some e => v.firstCluster e

/-- The owner is a directory. -/
def Volume.IsDirectory : Option EntryPtr → Prop
  | none => True
  | some e => v.attr e = kDirectory

/-- The names of the entries for a directory itself and for its parent. -/
def dotNames : List (List UInt8) :=
  [dot :: List.replicate 10 blank, dot :: dot :: List.replicate 9 blank]

/-- A slot in use. -/
def Volume.InUse (e : EntryPtr) : Prop :=
  v.isFreeSlot e = false ∧ v.attr e ≠ kLongName ∧ ¬ (v.attr e = kDirectory ∧ v.name e ∈ dotNames)

/-- The clusters of an owner: a chain, or none for an entry whose first cluster is 0. -/
def Clusters (o : Option EntryPtr) (cs : List ℕ) : Prop :=
  (o ≠ none ∧ v.firstOf g o = 0 ∧ cs = []) ∨ IsChain g v.fat (v.firstOf g o) cs

/-- The entries in use, and the root directory. -/
inductive Live : Option EntryPtr → Prop
  | root : Live none
  | entry {d : Option EntryPtr} {cs : List ℕ} {e : EntryPtr} :
      Live d → v.IsDirectory d → Clusters g v d cs → IsSlot g cs e → v.InUse e → Live (some e)

/-- The chains of the entries in use and of the root directory end, and have no cluster in common. -/
structure Isolated : Prop where
  clusters : ∀ o, Live g v o → ∃ cs, Clusters g v o cs
  disjoint : ∀ {o o' cs cs'}, Live g v o → Live g v o' → o ≠ o' → Clusters g v o cs → Clusters g v o' cs' →
    cs.Disjoint cs'

/-- Two volumes agree on the content of a file. -/
structure SameFile (v v' : Volume) (e : EntryPtr) : Prop where
  firstCluster : v'.firstCluster e = v.firstCluster e
  fileSize : v'.fileSize e = v.fileSize e
  clusters : ∀ cs, Clusters g v (some e) cs → Clusters g v' (some e) cs ∧ ∀ c ∈ cs, v'.data c = v.data c

/-- Every file in use but one stays in use, with the same content. -/
def OthersSame (v v' : Volume) (s : EntryPtr) : Prop :=
  ∀ e, e ≠ s → Live g v (some e) → v.attr e ≠ kDirectory →
    Live g v' (some e) ∧ v'.attr e ≠ kDirectory ∧ SameFile g v v' e

/-! ### Clusters of owners -/

variable {g v} {v' : Volume} {o o' p : Option EntryPtr} {e s : EntryPtr} {cs cs' ns : List ℕ} {c k : ℕ}

theorem Clusters.unique (h : Clusters g v o cs) (h' : Clusters g v o cs') : cs = cs' := by
  rcases h with ⟨-, h0, rfl⟩ | h <;> rcases h' with ⟨-, h0', rfl⟩ | h'
  · rfl
  · exact absurd h0 h'.first_ne_zero
  · exact absurd h0' h.first_ne_zero
  · exact h.linked.unique h'.linked

theorem Clusters.fat_ne_zero (h : Clusters g v o cs) (hc : c ∈ cs) : v.fat c ≠ 0 := by
  rcases h with ⟨-, -, rfl⟩ | h
  · cases hc
  · exact h.fat_ne_zero hc

theorem Clusters.isChain_of_mem (h : Clusters g v o cs) (hc : c ∈ cs) : IsChain g v.fat (v.firstOf g o) cs := by
  rcases h with ⟨-, -, rfl⟩ | h
  · cases hc
  · exact h

theorem IsChain.congr_fat {fat fat' : ℕ → ℕ} {first : ℕ} (h : IsChain g fat first cs)
    (hfat : ∀ x ∈ cs, fat' x = fat x) : IsChain g fat' first cs :=
  ⟨h.linked.congr fun x hx => next_congr (hfat x hx), h.lt⟩

/-- An owner keeps its clusters if their entries in the FAT do not change. -/
theorem Clusters.congr (h : Clusters g v o cs) (hfirst : v'.firstOf g o = v.firstOf g o)
    (hfat : ∀ x ∈ cs, v'.fat x = v.fat x) : Clusters g v' o cs := by
  rcases h with ⟨ho, h0, rfl⟩ | h
  · exact Or.inl ⟨ho, by rw [hfirst, h0], rfl⟩
  · exact Or.inr (hfirst ▸ h.congr_fat hfat)

/-- The bytes of an entry are the same. -/
def SameEntry (v v' : Volume) (e : EntryPtr) : Prop := ∀ k < entrySize, v'.byte e k = v.byte e k

theorem SameEntry.attr (h : SameEntry v v' e) : v'.attr e = v.attr e := h 11 (by decide)

theorem SameEntry.name (h : SameEntry v v' e) : v'.name e = v.name e := by
  refine List.map_congr_left fun k hk => h k ?_
  have := List.mem_range.mp hk
  simp only [entrySize]
  omega

theorem SameEntry.firstCluster (h : SameEntry v v' e) : v'.firstCluster e = v.firstCluster e := by
  rw [Volume.firstCluster, Volume.firstCluster, word_congr (h 26 (by decide)) (h 27 (by decide)),
    word_congr (h 20 (by decide)) (h 21 (by decide))]

theorem SameEntry.fileSize (h : SameEntry v v' e) : v'.fileSize e = v.fileSize e := by
  rw [Volume.fileSize, Volume.fileSize, word_congr (h 28 (by decide)) (h 29 (by decide)),
    word_congr (h 30 (by decide)) (h 31 (by decide))]

/-- Whether a slot is in use depends on its name and its attributes. -/
theorem inUse_congr (hname : v'.name e = v.name e) (hattr : v'.attr e = v.attr e) : v'.InUse e ↔ v.InUse e := by
  have hbyte : v'.byte e 0 = v.byte e 0 := by
    have := congrArg List.head? hname
    simpa [Volume.name, List.range_succ_eq_map] using this
  rw [Volume.InUse, Volume.InUse, Volume.isFreeSlot, Volume.isFreeSlot, hbyte, hattr, hname]

/-! ### Operations on one owner -/

/-- An operation adds the clusters `ns` to the owner `p`, and changes the entry `s`, which is no
directory with entries before or after. Every other entry of a directory is as it was, and
those in clusters added to a directory are not in use. -/
structure Touches (g : BPB) (v v' : Volume) (p : Option EntryPtr) (ns : List ℕ) (s : EntryPtr) : Prop where
  fresh : ∀ x ∈ ns, v.fat x = 0
  clusters : ∀ {o cs}, Live g v o → o ≠ some s → Clusters g v o cs → Clusters g v' o (if o = p then cs ++ ns else cs)
  entries : ∀ {d cs e}, Live g v d → v.IsDirectory d → Clusters g v d cs → e.cluster ∈ cs → e ≠ s → SameEntry v v' e
  unused : ∀ {e}, v.IsDirectory p → IsSlot g ns e → e ≠ s → ¬ v'.InUse e
  before : Live g v (some s) → v.attr s ≠ kDirectory ∧ v'.InUse s
  after : v'.attr s = kDirectory → v'.firstCluster s = 0
  content : ∀ {e cs}, Live g v (some e) → e ≠ s → v.attr e ≠ kDirectory → Clusters g v (some e) cs →
    some e ≠ p ∧ ∀ c ∈ cs, v'.data c = v.data c

theorem Live.ne_of_directory (h : Touches g v v' p ns s) (hd : Live g v o) (hdir : v.IsDirectory o) : o ≠ some s := by
  rintro rfl
  exact (h.before hd).1 hdir

/-- The entry of an owner in use is as it was. -/
theorem Touches.sameEntry (h : Touches g v v' p ns s) (hl : Live g v (some e)) (he : e ≠ s) : SameEntry v v' e := by
  cases hl with
  | entry hd hdir hcs hslot _ => exact h.entries hd hdir hcs hslot.mem he

theorem Touches.isDirectory (h : Touches g v v' p ns s) (hl : Live g v o) (ho : o ≠ some s) :
    v'.IsDirectory o ↔ v.IsDirectory o := by
  cases o with
  | none => exact Iff.rfl
  | some e =>
    have hattr := (h.sameEntry hl fun he => ho (he ▸ rfl)).attr
    rw [Volume.IsDirectory, Volume.IsDirectory, hattr]

/-- What is in use afterwards was in use before, but for the entry of the operation. -/
theorem Touches.live_of (h : Touches g v v' p ns s) (hi : Isolated g v) (hl : Live g v' o) :
    o = some s ∨ Live g v o := by
  induction hl with
  | root => exact Or.inr .root
  | @entry d cs' e _ hdir hcs' hslot huse ih =>
    by_cases he : e = s
    · exact Or.inl (he ▸ rfl)
    · right
      have hds : d ≠ some s := by
        rintro rfl
        -- as a directory, the entry of the operation has no clusters
        rcases hcs' with ⟨-, -, rfl⟩ | hchain
        · cases hslot.mem
        · exact hchain.first_ne_zero (h.after hdir)
      have hd := ih.resolve_left hds
      rw [h.isDirectory hd hds] at hdir
      obtain ⟨cs, hcs⟩ := hi.clusters d hd
      have hmem : e.cluster ∈ cs := by
        have heq := (h.clusters hd hds hcs).unique hcs'
        rw [← heq] at hslot
        split at hslot
        next hp =>
          rcases List.mem_append.mp hslot.mem with hmem | hmem
          · exact hmem
          · exact absurd huse (h.unused (hp ▸ hdir) ⟨hmem, hslot.lt⟩ he)
        next => exact hslot.mem
      have hsame := h.entries hd hdir hcs hmem he
      exact .entry hd hdir hcs ⟨hmem, hslot.lt⟩ ((inUse_congr hsame.name hsame.attr).mp huse)

/-- What is in use stays in use. -/
theorem Touches.live (h : Touches g v v' p ns s) (hl : Live g v o) : Live g v' o := by
  induction hl with
  | root => exact .root
  | @entry d cs e hd hdir hcs hslot huse ih =>
    have hds := hd.ne_of_directory h hdir
    have hslot' : IsSlot g (if d = p then cs ++ ns else cs) e := by
      split
      · exact hslot.of_append_left
      · exact hslot
    refine .entry ih ((h.isDirectory hd hds).mpr hdir) (h.clusters hd hds hcs) hslot' ?_
    by_cases he : e = s
    · subst he
      exact (h.before (.entry hd hdir hcs hslot huse)).2
    · have hsame := h.entries hd hdir hcs hslot.mem he
      exact (inUse_congr hsame.name hsame.attr).mpr huse

/-- **The chains stay apart** if that of the entry of the operation does. -/
theorem Touches.isolated (h : Touches g v v' p ns s) (hi : Isolated g v) (hs : Live g v' (some s) →
      ∃ cs, Clusters g v' (some s) cs ∧ ∀ o cs', Live g v o → o ≠ some s → Clusters g v o cs' →
        cs.Disjoint (if o = p then cs' ++ ns else cs')) : Isolated g v' := by
  have hfresh : ∀ {o cs}, Clusters g v o cs → cs.Disjoint ns := fun hcs c hc hc' => hcs.fat_ne_zero hc (h.fresh c hc')
  -- the entry of the operation and another owner
  have hone : ∀ {o cs cs'}, Live g v' (some s) → Live g v' o → o ≠ some s → Clusters g v' (some s) cs →
      Clusters g v' o cs' → cs.Disjoint cs' := by
    intro o cs cs' hls hl ho hcs hcs'
    obtain ⟨cs₁, h1, h2⟩ := hs hls
    have hlv := (h.live_of hi hl).resolve_left ho
    obtain ⟨cs₂, h3⟩ := hi.clusters o hlv
    rw [hcs.unique h1, hcs'.unique (h.clusters hlv ho h3)]
    exact h2 o cs₂ hlv ho h3
  refine ⟨fun o hl => ?_, fun {o o' cs cs'} hl hl' hne hcs hcs' => ?_⟩
  · by_cases ho : o = some s
    · subst ho
      obtain ⟨cs, hcs, -⟩ := hs hl
      exact ⟨cs, hcs⟩
    · have hlv := (h.live_of hi hl).resolve_left ho
      obtain ⟨cs, hcs⟩ := hi.clusters o hlv
      exact ⟨_, h.clusters hlv ho hcs⟩
  · by_cases ho : o = some s
    · subst ho
      exact hone hl hl' (fun he => hne he.symm) hcs hcs'
    · by_cases ho' : o' = some s
      · subst ho'
        exact (hone hl' hl hne hcs' hcs).symm
      · have hlv := (h.live_of hi hl).resolve_left ho
        have hlv' := (h.live_of hi hl').resolve_left ho'
        obtain ⟨cs₁, h1⟩ := hi.clusters o hlv
        obtain ⟨cs₂, h2⟩ := hi.clusters o' hlv'
        have hdisj := hi.disjoint hlv hlv' hne h1 h2
        rw [hcs.unique (h.clusters hlv ho h1), hcs'.unique (h.clusters hlv' ho' h2)]
        split
        next hp =>
          rw [if_neg fun hp' => hne (hp.trans hp'.symm)]
          exact List.disjoint_append_left.mpr ⟨hdisj, (hfresh h2).symm⟩
        next =>
          split
          · exact List.disjoint_append_right.mpr ⟨hdisj, hfresh h1⟩
          · exact hdisj

/-- **The other files** are as they were. -/
theorem Touches.othersSame (h : Touches g v v' p ns s) : OthersSame g v v' s := by
  intro e he hl hattr
  have hsame := h.sameEntry hl he
  refine ⟨h.live hl, by rwa [hsame.attr], hsame.firstCluster, hsame.fileSize, fun cs hcs => ?_⟩
  obtain ⟨hp, hdata⟩ := h.content hl he hattr hcs
  have hcs' := h.clusters hl (fun h' => he (Option.some.inj h')) hcs
  rw [if_neg hp] at hcs'
  exact ⟨hcs', hdata⟩

/-! ### `Write` -/

/-- What a `Write` to the file of an entry has changed, the file now having the clusters `cs`: the
FAT and the bytes of these clusters, and of the entry the first cluster and the size. -/
structure Written (g : BPB) (v v' : Volume) (e : EntryPtr) (cs : List ℕ) : Prop where
  chain : IsChain g v'.fat (v'.firstCluster e) cs
  fat : ∀ x, x ∉ cs → v'.fat x = v.fat x
  data : ∀ x o, x ∉ cs → x ≠ e.cluster ∨ o < e.offset 0 ∨ e.offset entrySize ≤ o → v'.data x o = v.data x o
  byte : ∀ k < 20, v'.byte e k = v.byte e k

/-- A `Write` of a descriptor that stands in one of the clusters of its file. -/
theorem written_of_mem (hg : g.WellFormed) {fd fd' : FileDescriptor} {buf : Buffer} {n : ℕ}
    (hw : fd.write g v buf = some (n, fd', v')) (h : IsChain g v.fat (v.firstCluster fd.entry) cs)
    (hu : v.fat fd.entry.cluster ≠ 0) (ho : fd.entry.cluster ∉ cs) (hwr : fd.wrCluster ∈ cs)
    (hoff : fd.wrClusterOff ≤ g.bytesPerCluster) :
    fd'.entry = fd.entry ∧ fd'.wrClusterOff ≤ g.bytesPerCluster ∧
    ∃ k, fd'.wrCluster ∈ cs ++ (free g v.fat).take k ∧ Written g v v' fd.entry (cs ++ (free g v.fat).take k) ∧
      free g v'.fat = (free g v.fat).drop k := by
  obtain ⟨j, hj⟩ := List.getElem?_of_mem hwr
  obtain ⟨hentry, hoff', k, j', v₁, hext, hj', -, hdata, hsize⟩ := write_frame hg h hj hoff hw
  obtain ⟨honly, -, hbyte⟩ := of_setFileSize hsize
  have hout := notMem_append_free (g := g) (k := k) hu ho
  have hentry₁ : v₁.data fd.entry.cluster = v.data fd.entry.cluster :=
    hdata _ fun hmem => hout (List.mem_of_mem_drop hmem)
  refine ⟨hentry, hoff', k, List.mem_of_getElem? hj', ⟨?_, hext.other, fun x o hx hxo => ?_, fun k hk => ?_⟩, hext.rest⟩
  · rw [firstCluster_of_setFileSize hsize hentry₁]
    exact hext.chain
  · rw [honly.data x o hxo, hdata x fun hmem => hx (List.mem_of_mem_drop hmem)]
  · rw [hbyte k (by omega), Volume.byte, Volume.byte, hentry₁]

theorem inCluster_of_setFileSize {size : ℕ} (h : v.setFileSize g e size = some v') : e.InCluster g := by
  obtain ⟨⟨hin, hle⟩, -⟩ := of_write h
  exact ⟨hin, hle⟩

theorem inCluster_of_write {fd fd' : FileDescriptor} {buf : Buffer} {n : ℕ}
    (hw : fd.write g v buf = some (n, fd', v')) : fd.entry.InCluster g := by
  obtain ⟨p, -, hw⟩ := Option.bind_eq_some_iff.mp hw
  obtain ⟨q, -, hw⟩ := Option.bind_eq_some_iff.mp hw
  obtain ⟨v₁, hsize, -⟩ := Option.bind_eq_some_iff.mp hw
  exact inCluster_of_setFileSize hsize

/-- The clusters `cs` have been allocated to a file that had none. -/
structure NewChain (g : BPB) (v v' : Volume) (e : EntryPtr) (f k : ℕ) (cs : List ℕ) : Prop where
  written : Written g v v' e cs
  clusters : cs = (free g v.fat).take k
  head : cs[0]? = some f
  length : cs.length = k
  used : v'.fat e.cluster ≠ 0
  outside : e.cluster ∉ cs
  rest : free g v'.fat = (free g v.fat).drop k

/-- The first `Write` to a file without clusters makes its chain, and goes on from the first of the new clusters. -/
theorem of_write_new (hg : g.WellFormed) {fd : FileDescriptor} {buf : Buffer} {r : ℕ × FileDescriptor × Volume}
    (h0 : fd.wrCluster = 0) (hfirst : v.firstCluster fd.entry = 0) (hu : v.fat fd.entry.cluster ≠ 0)
    (hw : fd.write g v buf = some r) :
    ∃ f v₁ cs₁, FileDescriptor.write g { fd with wrCluster := f } v₁ buf = some r ∧
      NewChain g v v₁ fd.entry f (max 1 (numCluster g buf.bytes.length)) cs₁ := by
  rcases Nat.lt_or_ge (free g v.fat).length (max 1 (numCluster g buf.bytes.length)) with hfull | hroom
  · rw [FileDescriptor.write, startWrite_new_none h0 hfirst hfull] at hw
    cases hw
  · obtain ⟨f, fs, hf⟩ : ∃ f fs, free g v.fat = f :: fs :=
      List.exists_cons_of_length_pos (Nat.lt_of_lt_of_le (by omega) hroom)
    obtain ⟨v₁, h1, h2, h3, h4, h5⟩ := startWrite_new hg h0 hfirst (inCluster_of_write (n := r.1) (g := g) hw) hf hroom
    have hlength := List.length_take_of_le hroom
    generalize max 1 (numCluster g buf.bytes.length) = k at h2 hlength ⊢
    have hout := notMem_append_free (g := g) (k := k) hu List.not_mem_nil
    have hchain := h2.chain
    rw [List.nil_append] at hout hchain
    have hhead : ((free g v.fat).take k)[0]? = some f := hchain.linked.getElem?_zero
    have hf0 := (hchain.lt f (List.mem_of_getElem? hhead)).1
    refine ⟨f, v₁, _, ?_, ⟨h3.symm ▸ hchain, fun x hx => h2.other x hx, fun x o _ => h4.data x o, fun i hi => h5 i ?_⟩,
      rfl, hhead, hlength, ?_, hout, h2.rest⟩
    · rw [← write_of_startWrite h1 (by omega), hw]
    · simp only [List.mem_cons, List.not_mem_nil, or_false]
      omega
    · rw [h2.other _ hout]
      exact hu

/-- **What a `Write` changes**, wherever the descriptor stands. -/
theorem write_spec (hg : g.WellFormed) {fd fd' : FileDescriptor} {buf : Buffer} {n : ℕ}
    (h : Clusters g v (some fd.entry) cs) (hu : v.fat fd.entry.cluster ≠ 0) (ho : fd.entry.cluster ∉ cs)
    (hwr : fd.wrCluster = 0 ∨ fd.wrCluster ∈ cs) (hoff : fd.wrClusterOff ≤ g.bytesPerCluster)
    (hw : fd.write g v buf = some (n, fd', v')) :
    fd'.entry = fd.entry ∧ fd'.wrClusterOff ≤ g.bytesPerCluster ∧
    ∃ k, fd'.wrCluster ∈ cs ++ (free g v.fat).take k ∧ Written g v v' fd.entry (cs ++ (free g v.fat).take k) := by
  rcases hwr with h0 | hmem
  · rcases h with ⟨-, hfirst, rfl⟩ | hchain
    · obtain ⟨f, v₁, cs₁, hw₁, hnew⟩ := of_write_new hg h0 hfirst hu hw
      generalize max 1 (numCluster g buf.bytes.length) = k at hnew
      obtain ⟨hentry, hoff', l, hmem', hwritten, -⟩ := written_of_mem hg hw₁ hnew.written.chain hnew.used hnew.outside
        (List.mem_of_getElem? hnew.head) hoff
      have hcs : cs₁ ++ (free g v₁.fat).take l = [] ++ (free g v.fat).take (k + l) := by
        rw [hnew.rest, hnew.clusters, List.nil_append, List.take_add]
      have hsub : ∀ x, x ∉ [] ++ (free g v.fat).take (k + l) → x ∉ cs₁ := by
        intro x hx hx'
        rw [← hcs] at hx
        exact hx (List.mem_append_left _ hx')
      rw [hcs] at hmem' hwritten
      exact ⟨hentry, hoff', k + l, hmem', hwritten.chain,
        fun x hx => (hwritten.fat x hx).trans (hnew.written.fat x (hsub x hx)),
        fun x o hx hxo => (hwritten.data x o hx hxo).trans (hnew.written.data x o (hsub x hx) hxo),
        fun i hi => (hwritten.byte i hi).trans (hnew.written.byte i hi)⟩
    · have hne := hchain.first_ne_zero
      rw [write_of_startWrite (startWrite_first h0 hchain _) hne] at hw
      obtain ⟨hentry, hoff', k, hmem', hwritten, -⟩ := written_of_mem hg hw hchain hu ho hchain.linked.mem_self hoff
      exact ⟨hentry, hoff', k, hmem', hwritten⟩
  · have hchain := h.isChain_of_mem hmem
    obtain ⟨hentry, hoff', k, hmem', hwritten, -⟩ := written_of_mem hg hw hchain hu ho hmem hoff
    exact ⟨hentry, hoff', k, hmem', hwritten⟩

/-- A slot of a directory lies in no cluster of another owner. -/
theorem Isolated.notMem (hi : Isolated g v) {d : Option EntryPtr} {ds : List ℕ} (hd : Live g v d)
    (hds : Clusters g v d ds) (hc : c ∈ ds) (ho : Live g v o) (hne : d ≠ o) (hcs : Clusters g v o cs)
    (hfresh : ∀ x ∈ ns, v.fat x = 0) : c ∉ cs ++ ns := fun hmem =>
  (List.mem_append.mp hmem).elim (hi.disjoint hd ho hne hds hcs hc) fun hmem => hds.fat_ne_zero hc (hfresh c hmem)

theorem Written.touches (hi : Isolated g v) (hl : Live g v (some e)) (hattr : v.attr e ≠ kDirectory)
    (hcs : Clusters g v (some e) cs) (hfresh : ∀ x ∈ ns, v.fat x = 0) (h : Written g v v' e (cs ++ ns)) :
    Touches g v v' (some e) ns e := by
  have hattr' : v'.attr e = v.attr e := h.byte 11 (by decide)
  have hname : v'.name e = v.name e := by
    refine List.map_congr_left fun k hk => h.byte k ?_
    have := List.mem_range.mp hk
    omega
  have hdir : ∀ {d}, v.IsDirectory d → d ≠ some e := fun hd he => hattr (by rw [he] at hd; exact hd)
  have hentries : ∀ {d ds e'}, Live g v d → v.IsDirectory d → Clusters g v d ds → e'.cluster ∈ ds → e' ≠ e →
      SameEntry v v' e' := fun hd hdd hds hmem he k hk =>
    h.data _ _ (hi.notMem hd hds hmem hl (hdir hdd) hcs hfresh) (EntryPtr.apart he hk)
  have hfirst : ∀ {o}, Live g v o → o ≠ some e → v'.firstOf g o = v.firstOf g o := by
    rintro _ (_ | ⟨hd, hdd, hds, hslot, _⟩) ho
    · rfl
    · exact (hentries hd hdd hds hslot.mem fun he => ho (he ▸ rfl)).firstCluster
  refine ⟨hfresh, fun {o ds} ho hne hds => ?_, hentries, fun hd => absurd hd hattr, fun _ => ⟨hattr, ?_⟩,
    fun hd => absurd (hattr'.symm.trans hd) hattr, fun {e' ds} hl' hne hattr₁ hds =>
      ⟨fun h' => hne (Option.some.inj h'), fun c hc => ?_⟩⟩
  · rw [if_neg hne]
    exact hds.congr (hfirst ho hne) fun x hx => h.fat x (hi.notMem ho hds hx hl hne hcs hfresh)
  · rw [inUse_congr hname hattr']
    cases hl with
    | entry _ _ _ _ huse => exact huse
  · refine funext fun o => h.data c o (hi.notMem hl' hds hc hl (fun h' => hne (Option.some.inj h')) hcs hfresh)
      (Or.inl ?_)
    rintro rfl
    -- the entry lies in a directory, and so not in the cluster of another file
    cases hl with
    | entry hd hdd hds' hslot _ =>
      exact hi.disjoint hd hl' (fun h' => hattr₁ (by rw [h'] at hdd; exact hdd)) hds' hds hslot.mem hc

/-- **A `Write`** keeps the chains apart and changes no other file. -/
theorem Written.isolated (hi : Isolated g v) (hl : Live g v (some e)) (hattr : v.attr e ≠ kDirectory)
    (hcs : Clusters g v (some e) cs) (hfresh : ∀ x ∈ ns, v.fat x = 0) (h : Written g v v' e (cs ++ ns)) :
    Isolated g v' := by
  refine (h.touches hi hl hattr hcs hfresh).isolated hi fun _ => ⟨cs ++ ns, Or.inr h.chain, fun o ds ho hne hds => ?_⟩
  rw [if_neg hne]
  exact fun c hc hc' => hi.notMem ho hds hc' hl hne hcs hfresh hc

/-! ### `CreateFile` -/

/-- What `CreateFile` has changed in a directory that had the clusters `cs` and now has `ns` as well:
it has made the entry `e`, in a slot that was not in use or in a new cluster. -/
structure Created (g : BPB) (v v' : Volume) (first : ℕ) (cs ns : List ℕ) (e : EntryPtr) : Prop where
  chain : IsChain g v'.fat first (cs ++ ns)
  fresh : ∀ x ∈ ns, v.fat x = 0
  fat : ∀ x, x ∉ cs ++ ns → v'.fat x = v.fat x
  data : ∀ x o, x ∉ ns → x ≠ e.cluster ∨ o < e.offset 0 ∨ e.offset entrySize ≤ o → v'.data x o = v.data x o
  unused : ∀ e', IsSlot g ns e' → e' ≠ e → v'.isFreeSlot e'
  slot : (e.cluster ∈ ns ∧ v'.firstCluster e = 0) ∨
    (ns = [] ∧ v'.fat = v.fat ∧ e.cluster ∈ cs ∧ v.isFreeSlot e ∧ v'.firstCluster e = v.firstCluster e ∧
      v'.attr e = v.attr e ∧ searchSlot g v g.fatEntries first = some (.inl e))

theorem isFreeSlot_of_zero (h : v.byte e 0 = 0) : v.isFreeSlot e := by
  simp [Volume.isFreeSlot, h]

/-- What `SetFileName` and the assignment of the size have changed. -/
theorem of_setNameSize {v₁ v₂ : Volume} {name : List UInt8} (h : setFileName g v e name = some v₁)
    (h' : v₁.setFileSize g e 0 = some v₂) :
    OnlyEntry e v v₂ ∧ ∀ k, 11 ≤ k → k < 28 → v₂.byte e k = v.byte e k := by
  obtain ⟨honly, -, hbyte⟩ := of_setFileSize h'
  have hlen := length_shortName name
  refine ⟨(OnlyEntry.of_write h (by simp [hlen, entrySize])).trans honly, fun k hk hk' => ?_⟩
  rw [hbyte k hk', byte_of_write_of_outside h (Or.inr (by omega))]

/-- **What `CreateFile` changes.** -/
theorem createFile_spec (hg : g.WellFormed) {path : List UInt8} (h : createFile g v path = some (.ok e, v')) :
    ∃ first name, parentDirectory g v path = some (.ok (first, name)) ∧ first ≠ 0 ∧
      ∀ cs, IsChain g v.fat first cs → ∃ ns, Created g v v' first cs ns e := by
  obtain ⟨r, h1, h⟩ := Option.bind_eq_some_iff.mp h
  match r, h1, h with
  | .error _, _, h => cases h
  | .ok (first, name), h1, h =>
    obtain ⟨⟨e', v₁⟩, h2, h⟩ := Option.bind_eq_some_iff.mp h
    obtain ⟨v₂, h3, h⟩ := Option.bind_eq_some_iff.mp h
    obtain ⟨v₃, h4, h⟩ := Option.bind_eq_some_iff.mp h
    cases h
    obtain ⟨honly, hbyte⟩ := of_setNameSize h3 h4
    refine ⟨first, name, h1, ?_, fun cs hcs => ?_⟩
    · rintro rfl
      obtain ⟨r, h5, -⟩ := Option.bind_eq_some_iff.mp h2
      have hin : ¬ g.InData 0 := fun hin => absurd hin.1 (by decide)
      cases hfe : g.fatEntries with
      | zero => rw [hfe] at h5; cases h5
      | succ n =>
        rw [hfe, searchSlot, if_neg hin] at h5
        cases h5
    have hfirst : v'.firstCluster e = v₁.firstCluster e := by
      rw [Volume.firstCluster, Volume.firstCluster,
        word_congr (hbyte 26 (by decide) (by decide)) (hbyte 27 (by decide) (by decide)),
          word_congr (hbyte 20 (by decide) (by decide)) (hbyte 21 (by decide) (by decide))]
    rcases of_allocateEntry hg hcs h2 with ⟨rfl, h5, h6, h7⟩ | ⟨h5, h6, h7, h8, h9⟩
    · refine ⟨[], ?_, by simp, fun x _ => by rw [honly.fat], fun x o _ hxo => honly.data x o hxo, fun e' he' => ?_,
        Or.inr ⟨rfl, honly.fat, h6.mem, h7, hfirst, hbyte 11 (by decide) (by decide), h5⟩⟩
      · rw [List.append_nil, honly.fat]
        exact hcs
      · cases he'.mem
    · have hzero : ∀ k < entrySize, v₁.byte e k = 0 := fun k hk => by
        have hin := (inCluster_of_setFileSize h4).2
        refine h9 _ ?_
        rw [EntryPtr.offset] at hin ⊢
        omega
      refine ⟨[e.cluster], ?_, fun x hx => ?_, fun x hx => ?_, fun x o hx hxo => ?_, fun e' he' hne => ?_,
        Or.inl ⟨List.mem_singleton_self _, ?_⟩⟩
      · rw [honly.fat, ← h6]
        exact h5.chain
      · rw [← h6] at hx
        exact (mem_free.mp (List.mem_of_mem_take hx)).2
      · rw [honly.fat, h5.other x (by rwa [h6])]
      · rw [honly.data x o hxo, h8 x (by simpa using hx)]
      · refine isFreeSlot_of_zero ?_
        rw [honly.byte_of_ne hne (by decide), Volume.byte, List.mem_singleton.mp he'.mem]
        refine h9 _ (Nat.lt_of_lt_of_le ?_ he'.offset_le)
        exact Nat.add_lt_add_left (by decide) _
      · rw [hfirst]
        simp [Volume.firstCluster, Volume.word, hzero 20 (by decide), hzero 21 (by decide), hzero 26 (by decide),
          hzero 27 (by decide)]

/-- What `CreateFile` leaves of a slot does no harm: the first cluster is 0, or starts a chain that no
entry in use shares, and the slot held no directory. -/
def Harmless (g : BPB) (v : Volume) (e : EntryPtr) : Prop :=
  v.firstCluster e = 0 ∨ v.attr e ≠ kDirectory ∧ ∃ cs, Clusters g v (some e) cs ∧
    ∀ o ds, Live g v o → Clusters g v o ds → cs.Disjoint ds

/-- The condition for `CreateFile`: what is found for the parent is a directory in use, and the slot it
takes, if it is an old one, is harmless. -/
def CanCreate (g : BPB) (v : Volume) (path : List UInt8) : Prop :=
  ∀ first name, parentDirectory g v path = some (.ok (first, name)) →
    (∃ d, Live g v d ∧ v.IsDirectory d ∧ v.firstOf g d = first) ∧
    ∀ e, searchSlot g v g.fatEntries first = some (.inl e) → Harmless g v e

variable {d : Option EntryPtr}

/-- The new entry was not in use. -/
theorem Created.not_live (h : Created g v v' (v.firstOf g d) cs ns e) : ¬ Live g v (some e) := by
  rintro (_ | ⟨_, _, hds, hslot, huse⟩)
  rcases h.slot with ⟨hmem, -⟩ | ⟨-, -, -, hfree, -⟩
  · exact hds.fat_ne_zero hslot.mem (h.fresh _ hmem)
  · rw [huse.1] at hfree
    cases hfree

/-- The slot of the new entry lies in no cluster of a file. -/
theorem Created.notMem (hi : Isolated g v) (hd : Live g v d) (hdir : v.IsDirectory d) (hds : Clusters g v d cs)
    (h : Created g v v' (v.firstOf g d) cs ns e) {e' : EntryPtr} {cs' : List ℕ} (hl : Live g v (some e'))
    (hattr : v.attr e' ≠ kDirectory) (hcs' : Clusters g v (some e') cs') : e.cluster ∉ cs' := by
  have hne : d ≠ some e' := fun he => hattr (by rw [he] at hdir; exact hdir)
  intro hmem
  rcases h.slot with ⟨hmem', -⟩ | ⟨-, -, hmem', -⟩
  · exact hcs'.fat_ne_zero hmem (h.fresh _ hmem')
  · exact hi.disjoint hd hl hne hds hcs' hmem' hmem

theorem Created.touches (hi : Isolated g v) (hd : Live g v d) (hdir : v.IsDirectory d) (hds : Clusters g v d cs)
    (h : Created g v v' (v.firstOf g d) cs ns e)
    (hslot : searchSlot g v g.fatEntries (v.firstOf g d) = some (.inl e) → Harmless g v e) : Touches g v v' d ns e := by
  have hentries : ∀ {o cs' e'}, Live g v o → v.IsDirectory o → Clusters g v o cs' → e'.cluster ∈ cs' → e' ≠ e →
      SameEntry v v' e' := fun ho _ hcs' hmem hne k hk =>
    h.data _ _ (fun hmem' => hcs'.fat_ne_zero hmem (h.fresh _ hmem')) (EntryPtr.apart hne hk)
  have hfirst : ∀ {o}, Live g v o → o ≠ some e → v'.firstOf g o = v.firstOf g o := by
    rintro _ (_ | ⟨ho, hod, hcs', hslot', _⟩) hne
    · rfl
    · exact (hentries ho hod hcs' hslot'.mem fun he => hne (he ▸ rfl)).firstCluster
  have hde : d ≠ some e := fun he => h.not_live (he ▸ hd)
  refine ⟨h.fresh, fun {o cs'} ho hne hcs' => ?_, hentries, fun {e'} _ hs hne huse => ?_,
    fun hl => absurd hl h.not_live, fun hattr => ?_, fun {e' cs'} hl hne hattr hcs' => ⟨?_, fun c hc => ?_⟩⟩
  · split
    next hod =>
      subst hod
      rw [hcs'.unique hds]
      exact Or.inr ((hfirst hd hde).symm ▸ h.chain)
    next hod =>
      refine hcs'.congr (hfirst ho hne) fun x hx => h.fat x ?_
      exact hi.notMem ho hcs' hx hd hod hds h.fresh
  · have := h.unused e' hs hne
    rw [huse.1] at this
    cases this
  · rcases h.slot with ⟨-, h0⟩ | ⟨-, -, -, -, h1, h2, h3⟩
    · exact h0
    · rcases hslot h3 with h0 | ⟨hne, -⟩
      · rw [h1, h0]
      · exact absurd (h2.symm.trans hattr) hne
  · rintro rfl
    exact hattr hdir
  · refine funext fun o => h.data c o (fun hmem => hcs'.fat_ne_zero hc (h.fresh c hmem)) (Or.inl ?_)
    rintro rfl
    exact h.notMem hi hd hdir hds hl hattr hcs' hc

/-- **`CreateFile`** keeps the chains apart, on its condition. -/
theorem Created.isolated (hi : Isolated g v) (hd : Live g v d) (hdir : v.IsDirectory d) (hds : Clusters g v d cs)
    (h : Created g v v' (v.firstOf g d) cs ns e)
    (hslot : searchSlot g v g.fatEntries (v.firstOf g d) = some (.inl e) → Harmless g v e) : Isolated g v' := by
  refine (h.touches hi hd hdir hds hslot).isolated hi fun _ => ?_
  have hempty : v'.firstCluster e = 0 → ∃ cs₁, Clusters g v' (some e) cs₁ ∧ ∀ o cs', Live g v o → o ≠ some e →
      Clusters g v o cs' → cs₁.Disjoint (if o = d then cs' ++ ns else cs') := fun h0 =>
    ⟨[], Or.inl ⟨by simp, h0, rfl⟩, fun _ _ _ _ _ => List.disjoint_nil_left _⟩
  rcases h.slot with ⟨-, h0⟩ | ⟨rfl, hfat, -, -, h1, -, h3⟩
  · exact hempty h0
  · rcases hslot h3 with h0 | ⟨-, cs₁, hcs₁, hdisj⟩
    · exact hempty (h1.trans h0)
    · refine ⟨cs₁, hcs₁.congr h1 fun x _ => by rw [hfat], fun o cs' ho _ hcs' => ?_⟩
      rw [List.append_nil, ite_self]
      exact hdisj o cs' ho hcs'

/-! ### Runs -/

/-- A volume and the descriptors that are open. -/
structure State where
  volume : Volume
  fds : List FileDescriptor

/-- What is done to a volume: a file is created, a descriptor is opened on an entry, a buffer is
written through one of the descriptors. -/
inductive Op where
  | create (path : List UInt8)
  | open (e : EntryPtr)
  | write (i : ℕ) (buf : Buffer)

/-- An operation that succeeds on an entry. Descriptors are opened on files in use. -/
inductive Step (g : BPB) : State → Op → EntryPtr → State → Prop
  | create {s : State} {path : List UInt8} {e : EntryPtr} {v' : Volume} :
      createFile g s.volume path = some (.ok e, v') → Step g s (.create path) e { s with volume := v' }
  | open {s : State} {e : EntryPtr} : Live g s.volume (some e) → s.volume.attr e ≠ kDirectory →
      Step g s (.open e) e { s with fds := s.fds ++ [{ entry := e }] }
  | write {s : State} {i : ℕ} {fd fd' : FileDescriptor} {buf : Buffer} {n : ℕ} {v' : Volume} :
      s.fds[i]? = some fd → fd.write g s.volume buf = some (n, fd', v') →
      Step g s (.write i buf) fd.entry { volume := v', fds := s.fds.set i fd' }

/-- The condition for an operation. -/
def Op.Meets (g : BPB) (v : Volume) : Op → Prop
  | .create path => CanCreate g v path
  | _ => True

/-- What has been reached by operations that meet their conditions, from a volume without open
descriptors. -/
inductive Reachable (g : BPB) (v : Volume) : State → Prop
  | start : Reachable g v { volume := v, fds := [] }
  | step {s s' : State} {op : Op} {e : EntryPtr} :
      Reachable g v s → Step g s op e s' → op.Meets g s.volume → Reachable g v s'

/-- A descriptor stands in one of the clusters of a file in use, or has not written yet. -/
structure Stands (g : BPB) (v : Volume) (fd : FileDescriptor) : Prop where
  live : Live g v (some fd.entry)
  file : v.attr fd.entry ≠ kDirectory
  place : fd.wrCluster = 0 ∨ ∃ cs, Clusters g v (some fd.entry) cs ∧ fd.wrCluster ∈ cs
  off_le : fd.wrClusterOff ≤ g.bytesPerCluster

/-- The invariant. -/
structure Inv (g : BPB) (s : State) : Prop where
  isolated : Isolated g s.volume
  stands : ∀ fd ∈ s.fds, Stands g s.volume fd

/-- A descriptor on another file stands where it stood. -/
theorem Stands.of_others {fd : FileDescriptor} (h : Stands g v fd) (ho : OthersSame g v v' e) (hne : fd.entry ≠ e) :
    Stands g v' fd := by
  obtain ⟨hlive, hfile, hsame⟩ := ho _ hne h.live h.file
  refine ⟨hlive, hfile, h.place.imp_right fun ⟨cs, hcs, hmem⟩ => ?_, h.off_le⟩
  exact ⟨cs, (hsame.clusters cs hcs).1, hmem⟩

theorem othersSame_refl : OthersSame g v v e := fun _ _ hl hattr =>
  ⟨hl, hattr, rfl, rfl, fun _ hcs => ⟨hcs, fun _ _ => rfl⟩⟩

/-- The cluster of a slot in use is in use itself, and no cluster of the file. -/
theorem Live.slot (hi : Isolated g v) (hl : Live g v (some e)) (hattr : v.attr e ≠ kDirectory)
    (hcs : Clusters g v (some e) cs) : v.fat e.cluster ≠ 0 ∧ e.cluster ∉ cs := by
  have hl' := hl
  rcases hl' with _ | ⟨hd, hdir, hds, hslot, -⟩
  refine ⟨hds.fat_ne_zero hslot.mem, fun hmem => ?_⟩
  exact hi.disjoint hd hl (fun he => hattr (by rw [he] at hdir; exact hdir)) hds hcs hslot.mem hmem

/-- A `Write` through a descriptor of the run. -/
theorem Stands.write (hg : g.WellFormed) (hi : Isolated g v) {fd fd' : FileDescriptor} {buf : Buffer} {n : ℕ}
    (h : Stands g v fd) (hw : fd.write g v buf = some (n, fd', v')) :
    Isolated g v' ∧ OthersSame g v v' fd.entry ∧ Stands g v' fd' ∧
      ∀ fd₁, fd₁.entry = fd.entry → Stands g v fd₁ → Stands g v' fd₁ := by
  obtain ⟨cs, hcs⟩ := hi.clusters _ h.live
  obtain ⟨hused, hout⟩ := h.live.slot hi h.file hcs
  have hplace : fd.wrCluster = 0 ∨ fd.wrCluster ∈ cs :=
    h.place.imp_right fun ⟨cs', hcs', hmem⟩ => hcs'.unique hcs ▸ hmem
  obtain ⟨hentry, hoff, k, hmem, hwritten⟩ := write_spec hg hcs hused hout hplace h.off_le hw
  have hfresh : ∀ x ∈ (free g v.fat).take k, v.fat x = 0 := fun x hx => (mem_free.mp (List.mem_of_mem_take hx)).2
  have htouches := hwritten.touches hi h.live h.file hcs hfresh
  have hlive := htouches.live h.live
  have hfile : v'.attr fd.entry ≠ kDirectory := by
    rw [show v'.attr fd.entry = v.attr fd.entry from hwritten.byte 11 (by decide)]
    exact h.file
  have hcs' : Clusters g v' (some fd.entry) (cs ++ (free g v.fat).take k) := Or.inr hwritten.chain
  refine ⟨hwritten.isolated hi h.live h.file hcs hfresh, htouches.othersSame,
    ⟨by rwa [hentry], by rwa [hentry], Or.inr ⟨_, by rwa [hentry], hmem⟩, hoff⟩, fun fd₁ he h₁ => ?_⟩
  refine ⟨by rwa [he], by rwa [he], h₁.place.imp_right fun ⟨cs₁, hcs₁, hmem₁⟩ => ?_, h₁.off_le⟩
  rw [he] at hcs₁ ⊢
  exact ⟨_, hcs', List.mem_append_left _ (hcs₁.unique hcs ▸ hmem₁)⟩

/-- A `CreateFile` of the run. -/
theorem CanCreate.create (hg : g.WellFormed) (hi : Isolated g v) {path : List UInt8} (h : CanCreate g v path)
    (hc : createFile g v path = some (.ok e, v')) : Isolated g v' ∧ OthersSame g v v' e ∧ ¬ Live g v (some e) := by
  obtain ⟨first, name, h1, h2, h3⟩ := createFile_spec hg hc
  obtain ⟨⟨d, hd, hdir, rfl⟩, hslot⟩ := h first name h1
  obtain ⟨cs, hcs⟩ := hi.clusters d hd
  have hchain : IsChain g v.fat (v.firstOf g d) cs := hcs.resolve_left fun h0 => h2 h0.2.1
  obtain ⟨ns, hcreated⟩ := h3 cs hchain
  exact ⟨hcreated.isolated hi hd hdir hcs (hslot e), (hcreated.touches hi hd hdir hcs (hslot e)).othersSame,
    hcreated.not_live⟩

/-- **One operation** that meets its condition keeps the invariant, and changes no file but its own. -/
theorem Inv.step (hg : g.WellFormed) {s s' : State} {op : Op} (h : Inv g s) (hm : op.Meets g s.volume)
    (hs : Step g s op e s') : Inv g s' ∧ OthersSame g s.volume s'.volume e := by
  cases hs with
  | create hc =>
    obtain ⟨h1, h2, h3⟩ := CanCreate.create hg h.isolated hm hc
    refine ⟨⟨h1, fun fd hfd => ?_⟩, h2⟩
    have hstands := h.stands fd hfd
    exact hstands.of_others h2 fun he => h3 (he ▸ hstands.live)
  | «open» hl hattr =>
    refine ⟨⟨h.isolated, fun fd hfd => ?_⟩, othersSame_refl⟩
    rcases List.mem_append.mp hfd with hfd | hfd
    · exact h.stands fd hfd
    · obtain rfl := List.mem_singleton.mp hfd
      exact ⟨hl, hattr, Or.inl rfl, Nat.zero_le _⟩
  | @write i fd fd' buf n v' hi hw =>
    have hstands := h.stands _ (List.mem_of_getElem? hi)
    obtain ⟨h1, h2, h3, h4⟩ := hstands.write hg h.isolated hw
    refine ⟨⟨h1, fun fd₁ hfd => ?_⟩, h2⟩
    rcases List.mem_or_eq_of_mem_set hfd with hfd | rfl
    · by_cases he : fd₁.entry = fd.entry
      · exact h4 fd₁ he (h.stands fd₁ hfd)
      · exact (h.stands fd₁ hfd).of_others h2 he
    · exact h3

theorem Reachable.inv (hg : g.WellFormed) (hi : Isolated g v) {s : State} (hr : Reachable g v s) : Inv g s := by
  induction hr with
  | start => exact ⟨hi, fun _ h => by cases h⟩
  | step _ hs hm ih => exact (ih.step hg hm hs).1

/-- A cluster marked as the end of its chain is a chain of its own. -/
theorem isChain_singleton {fat : ℕ → ℕ} (hfat : fat c = kEndOfClusterchain) (hc : 2 ≤ c ∧ c < g.fatEntries) :
    IsChain g fat c [c] :=
  ⟨.last (by rw [next_eq_none, hfat]; decide), by simpa using hc⟩

theorem live_emptyVolume (h : Live smallBPB emptyVolume o) : o = none := by
  induction h with
  | root => rfl
  | entry _ _ _ _ huse => exact absurd huse.1 (by simp [Volume.isFreeSlot, Volume.byte, emptyVolume])

theorem isolated_emptyVolume : Isolated smallBPB emptyVolume where
  clusters := fun o ho => by
    obtain rfl := live_emptyVolume ho
    exact ⟨[2], Or.inr (isChain_singleton (by decide) (by decide))⟩
  disjoint := fun ho ho' hne _ _ => absurd ((live_emptyVolume ho).trans (live_emptyVolume ho').symm) hne

theorem meets_emptyVolume : Op.Meets smallBPB emptyVolume (.create [66]) := by
  intro first name h
  rw [show parentDirectory smallBPB emptyVolume [66] = some (.ok (2, [66])) by rfl] at h
  cases h
  refine ⟨⟨none, .root, trivial, rfl⟩, fun e he => ?_⟩
  rw [show searchSlot smallBPB emptyVolume smallBPB.fatEntries 2 = some (.inl ⟨2, 0⟩) by rfl] at he
  cases he
  exact Or.inl (by decide)

/-- The volume after a file `B` has been created in the empty root directory. -/
def createdVolume : Volume := ((createFile smallBPB emptyVolume [66]).map Prod.snd).getD emptyVolume

theorem live_createdVolume : Live smallBPB createdVolume (some ⟨2, 0⟩) :=
  .entry .root trivial (Or.inr (isChain_singleton (by decide) (by decide))) ⟨List.mem_singleton_self 2, by decide⟩
    ⟨by decide, by decide, by decide⟩

/-- A root directory with the file `A`, of one byte in cluster 3, and a deleted entry that still names
this cluster. -/
def staleDirectory : List UInt8 :=
  [65] ++ List.replicate 10 blank ++ List.replicate 15 0 ++ [3, 0, 1, 0, 0, 0] ++
    [0xe5] ++ List.replicate 10 blank ++ List.replicate 15 0 ++ [3, 0, 1, 0, 0, 0]

/-- The volume with this directory. -/
def staleVolume : Volume where
  fat := fun cluster => if cluster = 2 ∨ cluster = 3 then kEndOfClusterchain else 0
  data := fun cluster o => if cluster = 2 then staleDirectory[o]?.getD 0 else 0

theorem clusters_staleVolume_root : Clusters smallBPB staleVolume none [2] :=
  Or.inr (isChain_singleton (by decide) (by decide))

theorem clusters_staleVolume_file : Clusters smallBPB staleVolume (some ⟨2, 0⟩) [3] :=
  Or.inr (isChain_singleton (by decide) (by decide))

theorem live_staleVolume (h : Live smallBPB staleVolume o) : o = none ∨ o = some ⟨2, 0⟩ := by
  induction h with
  | root => exact Or.inl rfl
  | @entry d cs e _ hdir hcs hslot huse ih =>
    rcases ih with rfl | rfl
    · obtain rfl := hcs.unique clusters_staleVolume_root
      obtain ⟨c, i⟩ := e
      obtain ⟨hmem, hlt⟩ := hslot
      obtain rfl : c = 2 := List.mem_singleton.mp hmem
      rcases Nat.lt_succ_iff_lt_or_eq.mp (show i < 1 + 1 from hlt) with hi | rfl
      · obtain rfl : i = 0 := Nat.lt_one_iff.mp hi
        exact Or.inr rfl
      · exact absurd huse.1 (by decide)
    · exact absurd hdir (by rw [Volume.IsDirectory]; decide)

theorem isolated_staleVolume : Isolated smallBPB staleVolume where
  clusters := fun o ho => by
    rcases live_staleVolume ho with rfl | rfl
    · exact ⟨_, clusters_staleVolume_root⟩
    · exact ⟨_, clusters_staleVolume_file⟩
  disjoint := fun {o o' cs cs'} ho ho' hne hcs hcs' => by
    rcases live_staleVolume ho with rfl | rfl <;> rcases live_staleVolume ho' with rfl | rfl
    · exact absurd rfl hne
    · rw [hcs.unique clusters_staleVolume_root, hcs'.unique clusters_staleVolume_file]
      simp
    · rw [hcs.unique clusters_staleVolume_file, hcs'.unique clusters_staleVolume_root]
      simp
    · exact absurd rfl hne

/-- The volume after a file `B` has been created. -/
def reusedVolume : Volume := ((createFile smallBPB staleVolume [66]).map Prod.snd).getD staleVolume

theorem clusters_reusedVolume (i : ℕ) (hi : i < 2) : Live smallBPB reusedVolume (some ⟨2, i⟩) ∧
    Clusters smallBPB reusedVolume (some ⟨2, i⟩) [3] ∧ reusedVolume.attr ⟨2, i⟩ ≠ kDirectory := by
  have hroot : Clusters smallBPB reusedVolume none [2] := Or.inr (isChain_singleton (by decide) (by decide))
  have hslot : IsSlot smallBPB [2] ⟨2, i⟩ := ⟨List.mem_singleton_self 2, hi⟩
  rcases Nat.lt_succ_iff_lt_or_eq.mp (show i < 1 + 1 from hi) with hi | rfl
  · obtain rfl : i = 0 := Nat.lt_one_iff.mp hi
    exact ⟨.entry .root trivial hroot hslot ⟨by decide, by decide, by decide⟩,
      Or.inr (isChain_singleton (by decide) (by decide)), by decide⟩
  · exact ⟨.entry .root trivial hroot hslot ⟨by decide, by decide, by decide⟩,
      Or.inr (isChain_singleton (by decide) (by decide)), by decide⟩

end DuvuvurKernel.Fat
