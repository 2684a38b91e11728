import DuvuvurKernel.Fat.ChainedFat

/-!
# Full volumes

Which FAT entries the allocation looks at. Its loops end when they have found enough free clusters and
never ask where the FAT ends.

## The model

Here `fat` is memory from the FAT on, in words: the first `fatEntries` of them are the FAT, and what
the others hold is anything. The relations `…Touches` say that a call reads or writes the word at an
index. They follow the loops past the end of the FAT, where the functions of the model are undefined
(`extendCluster_eq_none_iff`).

**Result** (`full_volume`): a call that needs more clusters than are free leaves the FAT, whichever
function it is of, and `CreateFile` never says that the volume is full.
-/

namespace DuvuvurKernel.Fat

open Lib.Chains

/-! ### The entries that are touched -/

/-- The loop of `ExtendCluster` to the end of a chain. -/
inductive EndTouches (fat : ℕ → ℕ) : ℕ → ℕ → Prop where
  | reads {c : ℕ} : EndTouches fat c c
  | goesOn {c d i : ℕ} : next fat c = some d → EndTouches fat d i → EndTouches fat c i

/-- The loop of `ExtendCluster` over the candidates and the assignment after it, with `n` clusters
still to be linked behind `current`. -/
inductive LinkTouches : (ℕ → ℕ) → ℕ → ℕ → ℕ → ℕ → Prop where
  | ends {fat : ℕ → ℕ} {candidate current : ℕ} : LinkTouches fat candidate 0 current current
  | reads {fat : ℕ → ℕ} {candidate n current : ℕ} : LinkTouches fat candidate (n + 1) current candidate
  | used {fat : ℕ → ℕ} {candidate n current i : ℕ} : fat candidate ≠ 0 →
      LinkTouches fat (candidate + 1) (n + 1) current i → LinkTouches fat candidate (n + 1) current i
  | writes {fat : ℕ → ℕ} {candidate n current : ℕ} : fat candidate = 0 →
    LinkTouches fat candidate (n + 1) current current
  | links {fat : ℕ → ℕ} {candidate n current i : ℕ} : fat candidate = 0 →
      LinkTouches (Function.update fat current candidate) (candidate + 1) n candidate i →
      LinkTouches fat candidate (n + 1) current i

/-- `ExtendCluster`. -/
def ExtendTouches (fat : ℕ → ℕ) (c n i : ℕ) : Prop :=
  EndTouches fat c i ∨ ∃ cs last, Linked (next fat) c cs ∧ cs.getLast? = some last ∧ LinkTouches fat 2 n last i

/-- The loop of `AllocateClusterChain` for a free cluster. -/
inductive SearchTouches (fat : ℕ → ℕ) : ℕ → ℕ → Prop where
  | reads {c : ℕ} : SearchTouches fat c c
  | used {c i : ℕ} : fat c ≠ 0 → SearchTouches fat (c + 1) i → SearchTouches fat c i

/-- `AllocateClusterChain`. -/
def AllocateTouches (fat : ℕ → ℕ) (n i : ℕ) : Prop :=
  SearchTouches fat 2 i ∨ ∃ f, SearchTouches fat 2 f ∧ fat f = 0 ∧ 1 < n ∧
    ExtendTouches (Function.update fat f kEndOfClusterchain) f (n - 1) i

variable (g : BPB)

/-- `AllocateEntry`. -/
inductive EntryTouches (v : Volume) : ℕ → ℕ → Prop where
  | reads {c : ℕ} : g.InData c → (∀ i < g.entriesPerCluster, ¬ v.isFreeSlot ⟨c, i⟩) → EntryTouches v c c
  | goesOn {c d i : ℕ} : g.InData c → (∀ i < g.entriesPerCluster, ¬ v.isFreeSlot ⟨c, i⟩) →
      next v.fat c = some d → EntryTouches v d i → EntryTouches v c i
  | extends {c i : ℕ} : g.InData c → (∀ i < g.entriesPerCluster, ¬ v.isFreeSlot ⟨c, i⟩) →
      next v.fat c = none → ExtendTouches v.fat c 1 i → EntryTouches v c i

/-- The loop of `Write`. -/
inductive LoopTouches (buf : Buffer) : ℕ → ℕ → ℕ → Volume → ℕ → Prop where
  | reads {total c : ℕ} {v : Volume} : total < buf.bytes.length → LoopTouches buf total c g.bytesPerCluster v c
  | extends {total c i : ℕ} {v : Volume} : total < buf.bytes.length → next v.fat c = none →
      ExtendTouches v.fat c (numCluster g (buf.bytes.length - total)) i → LoopTouches buf total c g.bytesPerCluster v i
  | round {total c off c₁ off₁ i : ℕ} {v v₁ v₂ : Volume} : total < buf.bytes.length →
      advance g v c off (buf.bytes.length - total) = some (c₁, off₁, v₁) →
      v₁.write g c₁ off₁ (buf.slice total (min buf.bytes.length (g.bytesPerCluster - off₁))) = some v₂ →
      LoopTouches buf (total + min buf.bytes.length (g.bytesPerCluster - off₁)) c₁
        (off₁ + min buf.bytes.length (g.bytesPerCluster - off₁)) v₂ i →
      LoopTouches buf total c off v i

/-- `Write`. -/
def WriteTouches (fd : FileDescriptor) (v : Volume) (buf : Buffer) (i : ℕ) : Prop :=
  (fd.wrCluster = 0 ∧ v.firstCluster fd.entry = 0 ∧ AllocateTouches v.fat (numCluster g buf.bytes.length) i) ∨
    ∃ c v', fd.startWrite g v buf.bytes.length = some (c, v') ∧ LoopTouches g buf 0 c fd.wrClusterOff v' i

/-- A call of a function that allocates clusters. -/
inductive Request where
  | extendCluster (eocCluster n : ℕ)
  | allocateClusterChain (n : ℕ)
  | allocateEntry (dirCluster : ℕ)
  | write (fd : FileDescriptor) (buf : Buffer)

/-- It reads or writes the FAT at an index. -/
def Request.Touches (v : Volume) : Request → ℕ → Prop
  | .extendCluster c n => ExtendTouches v.fat c n
  | .allocateClusterChain n => AllocateTouches v.fat n
  | .allocateEntry c => EntryTouches g v c
  | .write fd buf => WriteTouches g fd v buf

/-- The cluster in which `Write` goes on, where the file has clusters. -/
def FileDescriptor.writeCluster (fd : FileDescriptor) (v : Volume) : ℕ :=
  if fd.wrCluster ≠ 0 then fd.wrCluster else v.firstCluster fd.entry

/-- It needs more clusters than are free. -/
def Request.Exceeds (v : Volume) : Request → Prop
  | .extendCluster c n => (∃ first cs, IsChain g v.fat first cs ∧ c ∈ cs) ∧ (free g v.fat).length < n
  | .allocateClusterChain n => (free g v.fat).length < max 1 n
  | .allocateEntry c =>
    (∃ cs, IsChain g v.fat c cs ∧ ∀ d ∈ cs, g.InData d ∧ ∀ i < g.entriesPerCluster, ¬ v.isFreeSlot ⟨d, i⟩) ∧
      free g v.fat = []
  | .write fd buf =>
      (fd.wrCluster = 0 ∧ v.firstCluster fd.entry = 0 ∧ (free g v.fat).length < max 1 (numCluster g buf.bytes.length)) ∨
      ∃ first cs j, IsChain g v.fat first cs ∧ (∀ d ∈ cs, g.InData d) ∧ cs[j]? = some (fd.writeCluster v) ∧
        fd.wrClusterOff ≤ g.bytesPerCluster ∧
        (cs.length - j + (free g v.fat).length) * g.bytesPerCluster < fd.wrClusterOff + buf.bytes.length

/-- It keeps to the FAT. -/
def Request.KeepsToFat (v : Volume) (r : Request) : Prop := ∀ i, r.Touches g v i → i < g.fatEntries

/-! ### `CreateFile` of the system calls -/

/-- The error numbers it gives. -/
inductive Errno where
  | eisdir
  | enoent
  | enospc
  deriving DecidableEq

/-- The `switch` of `CreateFile` in `syscall.cpp`: no error number is 0. -/
def errnoOf : Error → Option Errno
  | .isDirectory => some .eisdir
  | .noSuchEntry => some .enoent
  | .noEnoughMemory => some .enospc
  | _ => none

/-- `CreateFile` in `syscall.cpp`. -/
def syscallCreateFile (v : Volume) (path : List UInt8) : Option ((Option EntryPtr × Option Errno) × Volume) := do
  let (r, v) ← createFile g v path
  match r with
  | .ok file => some ((some file, none), v)
  | .error err => some ((none, errnoOf err), v)

/-! ### Past the end -/

variable {g} {v v' : Volume} {fat : ℕ → ℕ} {cs : List ℕ} {c current first n k i : ℕ}

/-- Where too few candidates are free, the loop goes on to the first that the FAT does not have. -/
theorem linkTouches_past (h0 : 0 < c) (hn : (freeFrom fat c k).length < n) (hcur : fat current ≠ 0 ∨ current < c) :
    LinkTouches fat c n current (c + k) := by
  induction k generalizing c n current fat with
  | zero =>
    obtain ⟨n, rfl⟩ := Nat.exists_eq_add_of_le' (Nat.lt_of_le_of_lt (Nat.zero_le _) hn)
    exact .reads
  | succ k ih =>
    obtain ⟨n, rfl⟩ := Nat.exists_eq_add_of_le' (Nat.lt_of_le_of_lt (Nat.zero_le _) hn)
    rw [freeFrom_succ] at hn
    rw [show c + (k + 1) = c + 1 + k by omega]
    by_cases hc : fat c = 0
    · rw [if_pos hc, List.length_cons, Nat.add_lt_add_iff_right] at hn
      refine .links hc (ih (Nat.succ_pos c) ?_ (Or.inr (Nat.lt_succ_self c)))
      rwa [freeFrom_update h0.ne' (hcur.imp_right Nat.lt_succ_of_lt)]
    · rw [if_neg hc] at hn
      exact .used hc (ih (Nat.succ_pos c) hn (hcur.imp_right Nat.lt_succ_of_lt))

theorem freeFrom_pos (hn : n + 1 ≤ (freeFrom fat c k).length) : ∃ k', k = k' + 1 := by
  cases k with
  | zero => simp [freeFrom] at hn
  | succ k => exact ⟨k, rfl⟩

/-- Where enough are free, it ends before. -/
theorem LinkTouches.lt (h : LinkTouches fat c n current i) (h0 : 0 < c) (hn : n ≤ (freeFrom fat c k).length)
    (hcur : fat current ≠ 0 ∨ current < c) (hlt : current < c + k) : i < c + k := by
  induction h generalizing k with
  | ends => exact hlt
  | reads =>
    obtain ⟨k, rfl⟩ := freeFrom_pos hn
    omega
  | used hc _ ih =>
    obtain ⟨k, rfl⟩ := freeFrom_pos hn
    rw [freeFrom_succ, if_neg hc] at hn
    have := ih (Nat.succ_pos _) hn (hcur.imp_right Nat.lt_succ_of_lt) (by omega)
    omega
  | writes => exact hlt
  | links hc _ ih =>
    obtain ⟨k, rfl⟩ := freeFrom_pos hn
    rw [freeFrom_succ, if_pos hc, List.length_cons, Nat.add_le_add_iff_right] at hn
    rw [← freeFrom_update h0.ne' (hcur.imp_right Nat.lt_succ_of_lt)] at hn
    have := ih (Nat.succ_pos _) hn (Or.inr (Nat.lt_succ_self _)) (by omega)
    omega

theorem EndTouches.mem (h : EndTouches fat c i) (hcs : Linked (next fat) c cs) : i ∈ cs := by
  induction h generalizing cs with
  | reads => exact hcs.mem_self
  | goesOn hd _ ih =>
    cases hcs with
    | last hn =>
      rw [hn] at hd
      cases hd
    | cons hs ht =>
      rw [hs] at hd
      cases hd
      exact List.mem_cons_of_mem _ (ih ht)

/-- `ExtendCluster` leaves the FAT where there are not enough free clusters, and only there. -/
theorem extendTouches_past_iff (h : IsChain g fat c cs) :
    (∃ i, g.fatEntries ≤ i ∧ ExtendTouches fat c n i) ↔ (free g fat).length < n := by
  have hlast := List.getLast_mem h.linked.ne_nil
  have hmem := h.lt _ hlast
  have hcur : fat (cs.getLast h.linked.ne_nil) ≠ 0 ∨ cs.getLast h.linked.ne_nil < 2 := Or.inl (h.fat_ne_zero hlast)
  have hk : 2 + (g.fatEntries - 2) = g.fatEntries := by omega
  constructor
  · rintro ⟨i, hi, htouch⟩
    by_contra hn
    rcases htouch with hend | ⟨ds, last, hds, hl, hlink⟩
    · have := (h.lt i (hend.mem h.linked)).2
      omega
    · obtain rfl := hds.unique h.linked
      rw [List.getLast?_eq_some_getLast h.linked.ne_nil, Option.some.injEq] at hl
      subst hl
      have := hlink.lt (k := g.fatEntries - 2) (by decide) (Nat.le_of_not_lt hn) hcur (by omega)
      omega
  · intro hn
    refine ⟨g.fatEntries, Nat.le_refl _, Or.inr ⟨cs, _, h.linked, List.getLast?_eq_some_getLast h.linked.ne_nil, ?_⟩⟩
    have hpast := linkTouches_past (by decide : 0 < 2) hn hcur
    rwa [hk] at hpast

/-- So it is where the model of `ExtendCluster` is undefined. -/
theorem extendCluster_eq_none_iff (h : IsChain g v.fat c cs) :
    extendCluster g v c n = none ↔ ∃ i, g.fatEntries ≤ i ∧ ExtendTouches v.fat c n i := by
  rw [extendTouches_past_iff h, extendCluster_eq h]
  simp

/-- The search for a free cluster does not end in a full FAT. -/
theorem searchTouches_past (hfree : freeFrom fat c k = []) : SearchTouches fat c (c + k) := by
  induction k generalizing c with
  | zero => exact .reads
  | succ k ih =>
    rw [freeFrom_succ] at hfree
    split at hfree
    next => cases hfree
    next hc =>
      rw [show c + (k + 1) = c + 1 + k by omega]
      exact .used hc (ih hfree)

/-- It finds the first free cluster. -/
theorem searchTouches_head {f : ℕ} {fs : List ℕ} (hfree : freeFrom fat c k = f :: fs) : SearchTouches fat c f := by
  induction k generalizing c with
  | zero => cases hfree
  | succ k ih =>
    rw [freeFrom_succ] at hfree
    split at hfree
    next hc =>
      cases hfree
      exact .reads
    next hc => exact .used hc (ih hfree)

/-- `AllocateClusterChain` leaves the FAT where there are not enough free clusters. -/
theorem allocateTouches_past (hn : (free g fat).length < max 1 n) :
    ∃ i, g.fatEntries ≤ i ∧ AllocateTouches fat n i := by
  cases hf : free g fat with
  | nil => exact ⟨2 + (g.fatEntries - 2), by omega, Or.inl (searchTouches_past hf)⟩
  | cons f fs =>
    rw [hf, List.length_cons] at hn
    have hmem := mem_free.mp (hf ▸ List.mem_cons_self : f ∈ free g fat)
    have hchain : IsChain g (Function.update fat f kEndOfClusterchain) f [f] := isChain_singleton (by simp) hmem.1
    obtain ⟨i, hi, htouch⟩ := (extendTouches_past_iff (n := n - 1) hchain).mpr (by rw [free_update_head hf]; omega)
    exact ⟨i, hi, Or.inr ⟨f, searchTouches_head hf, hmem.2, by omega, htouch⟩⟩

/-- `AllocateEntry` leaves it where no slot of the directory is free and no cluster. -/
theorem entryTouches_past (h : IsChain g v.fat c cs)
    (hfull : ∀ d ∈ cs, g.InData d ∧ ∀ i < g.entriesPerCluster, ¬ v.isFreeSlot ⟨d, i⟩) (hfree : free g v.fat = []) :
    ∃ i, g.fatEntries ≤ i ∧ EntryTouches g v c i := by
  obtain ⟨hlinked, hlt⟩ := h
  induction hlinked with
  | @last c hn =>
    obtain ⟨hdata, hslots⟩ := hfull c (by simp)
    obtain ⟨i, hi, htouch⟩ := (extendTouches_past_iff (n := 1) ⟨.last hn, hlt⟩).mpr (by rw [hfree]; decide)
    exact ⟨i, hi, .extends hdata hslots hn htouch⟩
  | @cons c d cs hs ht ih =>
    obtain ⟨hdata, hslots⟩ := hfull c (by simp)
    obtain ⟨i, hi, htouch⟩ := ih (fun x hx => hfull x (List.mem_cons_of_mem _ hx))
      fun x hx => hlt x (List.mem_cons_of_mem _ hx)
    exact ⟨i, hi, .goesOn hdata hslots hs htouch⟩

theorem length_slice (buf : Buffer) (o m : ℕ) : (buf.slice o m).length = m := by
  simp [Buffer.slice]

/-- The loop of `Write` fills the rest of a cluster and goes on. -/
theorem loopTouches_of_fill {buf : Buffer} {total off off₁ c₁ : ℕ} (hlt : total < buf.bytes.length)
    (ha : advance g v c off (buf.bytes.length - total) = some (c₁, off₁, v)) (hc : g.InData c₁)
    (hoff : off₁ ≤ g.bytesPerCluster) (hlen : g.bytesPerCluster - off₁ ≤ buf.bytes.length)
    (hrest : ∀ v' : Volume, v'.fat = v.fat →
      ∃ i, g.fatEntries ≤ i ∧ LoopTouches g buf (total + (g.bytesPerCluster - off₁)) c₁ g.bytesPerCluster v' i) :
    ∃ i, g.fatEntries ≤ i ∧ LoopTouches g buf total c off v i := by
  have hmin : min buf.bytes.length (g.bytesPerCluster - off₁) = g.bytesPerCluster - off₁ := Nat.min_eq_right hlen
  have hroom : off₁ + (buf.slice total (g.bytesPerCluster - off₁)).length ≤ g.bytesPerCluster := by
    rw [length_slice]
    omega
  have hwrite := write_eq (v := v) hc hroom
  obtain ⟨i, hi, htouch⟩ := hrest _ (fat_of_write hwrite)
  refine ⟨i, hi, .round hlt ha (by rw [hmin]; exact hwrite) ?_⟩
  rwa [hmin, Nat.add_sub_cancel' hoff]

/-- At the end of a cluster, with more bytes left than the clusters behind it and the free ones hold. -/
theorem loopTouches_full (hg : g.WellFormed) {buf : Buffer} {j m total : ℕ} (h : IsChain g v.fat first cs)
    (hdata : ∀ d ∈ cs, g.InData d) (hj : cs[j]? = some c) (hm : j + 1 + m = cs.length)
    (hn : (m + (free g v.fat).length) * g.bytesPerCluster < buf.bytes.length - total) :
    ∃ i, g.fatEntries ≤ i ∧ LoopTouches g buf total c g.bytesPerCluster v i := by
  induction m generalizing j c total v with
  | zero =>
    obtain ⟨hlt, rfl⟩ := List.getElem?_eq_some_iff.mp hj
    have hchain : IsChain g v.fat cs[j] (cs.drop j) := ⟨h.linked.drop hlt, fun x hx => h.lt x (List.mem_of_mem_drop hx)⟩
    have hnext : next v.fat cs[j] = none := by rw [h.linked.next_getElem hlt, List.getElem?_eq_none (by omega)]
    have htotal : total < buf.bytes.length := by omega
    rw [Nat.zero_add, ← lt_numCluster_iff hg.bytesPerCluster_pos] at hn
    obtain ⟨i, hi, htouch⟩ := (extendTouches_past_iff hchain).mpr hn
    exact ⟨i, hi, .extends htotal hnext htouch⟩
  | succ m ih =>
    have hlt : j + 1 < cs.length := by omega
    rw [show m + 1 + (free g v.fat).length = m + (free g v.fat).length + 1 by omega, Nat.succ_mul] at hn
    have ha : advance g v c g.bytesPerCluster (buf.bytes.length - total) = _ := advance_full hg h hj
    rw [List.getElem?_eq_getElem hlt] at ha
    refine loopTouches_of_fill (by omega) ha (hdata _ (List.getElem_mem hlt)) (Nat.zero_le _)
      (by omega) fun v' hfat => ?_
    refine ih (hfat ▸ h) (List.getElem?_eq_getElem hlt) (by omega) ?_
    rw [hfat]
    omega

/-- `Write` leaves it where the bytes do not fit what is left of the file's clusters and the free
ones. -/
theorem loopTouches_past (hg : g.WellFormed) {buf : Buffer} {j off : ℕ} (h : IsChain g v.fat first cs)
    (hdata : ∀ d ∈ cs, g.InData d) (hj : cs[j]? = some c) (hoff : off ≤ g.bytesPerCluster)
    (hn : (cs.length - j + (free g v.fat).length) * g.bytesPerCluster < off + buf.bytes.length) :
    ∃ i, g.fatEntries ≤ i ∧ LoopTouches g buf 0 c off v i := by
  have hlt := (List.getElem?_eq_some_iff.mp hj).1
  obtain ⟨m, hm⟩ := Nat.exists_eq_add_of_le (show j + 1 ≤ cs.length from hlt)
  rw [show cs.length - j + (free g v.fat).length = m + (free g v.fat).length + 1 by omega, Nat.succ_mul] at hn
  by_cases hfull : off = g.bytesPerCluster
  · subst hfull
    exact loopTouches_full hg h hdata hj hm.symm (by omega)
  · refine loopTouches_of_fill (by omega) (advance_of_ne hfull)
      (hdata c (List.mem_of_getElem? hj)) hoff (by omega) fun v' hfat => ?_
    refine loopTouches_full hg (hfat ▸ h) hdata hj hm.symm ?_
    rw [hfat]
    omega

theorem startWrite_writeCluster {fd : FileDescriptor} (hne : fd.writeCluster v ≠ 0) (len : ℕ) :
    fd.startWrite g v len = some (fd.writeCluster v, v) := by
  rw [FileDescriptor.writeCluster] at hne ⊢
  rw [FileDescriptor.startWrite]
  split
  next hw => rfl
  next hw =>
    rw [if_neg hw] at hne
    exact if_pos hne

theorem Request.Exceeds.touches_past {r : Request} (hg : g.WellFormed) (h : r.Exceeds g v) :
    ∃ i, g.fatEntries ≤ i ∧ r.Touches g v i := by
  cases r with
  | extendCluster c n =>
    obtain ⟨⟨first, cs, hchain, hc⟩, hn⟩ := h
    obtain ⟨pre, ds, hds, hlinked⟩ := hchain.linked.of_mem hc
    exact (extendTouches_past_iff ⟨hlinked, fun x hx => hchain.lt x (hds ▸ List.mem_append_right _ hx)⟩).mpr hn
  | allocateClusterChain n => exact allocateTouches_past h
  | allocateEntry c =>
    obtain ⟨⟨cs, hchain, hfull⟩, hfree⟩ := h
    exact entryTouches_past hchain hfull hfree
  | write fd buf =>
    rcases h with ⟨hw, h0, hn⟩ | ⟨first, cs, j, hchain, hdata, hj, hoff, hn⟩
    · obtain ⟨i, hi, htouch⟩ := allocateTouches_past hn
      exact ⟨i, hi, Or.inl ⟨hw, h0, htouch⟩⟩
    · obtain ⟨i, hi, htouch⟩ := loopTouches_past hg hchain hdata hj hoff hn
      have hne : fd.writeCluster v ≠ 0 := by
        have := (hchain.lt _ (List.mem_of_getElem? hj)).1
        omega
      exact ⟨i, hi, Or.inr ⟨_, _, startWrite_writeCluster hne _, htouch⟩⟩

/-! ### No failure is reported -/

/-- What can be wrong with the path of a new file. -/
theorem of_parentDirectory_error {path : List UInt8} {err : Error} (h : parentDirectory g v path = some (.error err)) :
    err = .isDirectory ∨ err = .noSuchEntry := by
  rw [parentDirectory] at h
  split at h
  next => cases h
  next parentDirName filename =>
    split at h
    next =>
      cases h
      exact Or.inl rfl
    next =>
      split at h
      next => cases h
      next =>
        obtain ⟨⟨found, postSlash⟩, -, h⟩ := Option.bind_eq_some_iff.mp h
        cases found with
        | none =>
          cases h
          exact Or.inr rfl
        | some parentDir => cases h

theorem of_createFile_error {path : List UInt8} {err : Error} (h : createFile g v path = some (.error err, v')) :
    err = .isDirectory ∨ err = .noSuchEntry := by
  obtain ⟨r, hparent, h⟩ := Option.bind_eq_some_iff.mp h
  cases r with
  | error err =>
    cases h
    exact of_parentDirectory_error hparent
  | ok p =>
    obtain ⟨⟨dir, v₁⟩, -, h⟩ := Option.bind_eq_some_iff.mp h
    obtain ⟨v₂, -, h⟩ := Option.bind_eq_some_iff.mp h
    obtain ⟨v₃, -, h⟩ := Option.bind_eq_some_iff.mp h
    cases h

theorem errno_of_syscallCreateFile {path : List UInt8} {file : Option EntryPtr} {errno : Option Errno}
    (h : syscallCreateFile g v path = some ((file, errno), v')) : errno ≠ some .enospc := by
  obtain ⟨⟨r, v₁⟩, hcreate, h⟩ := Option.bind_eq_some_iff.mp h
  cases r with
  | error err =>
    cases h
    rcases of_createFile_error hcreate with rfl | rfl <;> decide
  | ok file =>
    cases h
    decide

/-- **A full volume** is not noticed: a call that needs more clusters than are free leaves the FAT, and
no path makes `CreateFile` say that the volume is full, neither in the file system nor in the system calls. -/
theorem full_volume (hg : g.WellFormed) (r : Request) (h : r.Exceeds g v) :
    ¬ r.KeepsToFat g v ∧ (∀ path v', createFile g v path ≠ some (.error .noEnoughMemory, v')) ∧
      ∀ path file v', syscallCreateFile g v path ≠ some ((file, some .enospc), v') := by
  refine ⟨fun hkeeps => ?_, fun path v' hcreate => ?_, fun path file v' hcreate => ?_⟩
  · obtain ⟨i, hi, htouch⟩ := h.touches_past hg
    exact Nat.not_lt.mpr hi (hkeeps i htouch)
  · rcases of_createFile_error hcreate with herr | herr <;> cases herr
  · exact errno_of_syscallCreateFile hcreate rfl

/-- A directory of one cluster with both slots in use, on a volume without a free cluster. -/
def fullDirectory : Volume := { fullVolume with data := fun _ _ => 1 }

theorem exceeds_fullDirectory : (Request.allocateEntry 2).Exceeds smallBPB fullDirectory := by
  refine ⟨⟨[2], isChain_singleton rfl (by decide), fun d hd => ?_⟩, by decide⟩
  obtain rfl := List.mem_singleton.mp hd
  exact ⟨by decide, by decide⟩

theorem full_volume_directory : ¬ (Request.allocateEntry 2).KeepsToFat smallBPB fullDirectory :=
  (full_volume wellFormed_smallBPB _ exceeds_fullDirectory).1

/-- The first byte of a new file is looked for a cluster past the FAT. -/
theorem write_leaves_fat : smallBPB.WellFormed ∧
    (Request.write { entry := ⟨2, 0⟩ } { bytes := [1] }).Exceeds smallBPB fullVolume ∧
    (Request.write { entry := ⟨2, 0⟩ } { bytes := [1] }).Touches smallBPB fullVolume 8 ∧
    ¬ (Request.write { entry := ⟨2, 0⟩ } { bytes := [1] }).KeepsToFat smallBPB fullVolume := by
  have htouch : (Request.write { entry := ⟨2, 0⟩ } { bytes := [1] }).Touches smallBPB fullVolume 8 :=
    Or.inl ⟨rfl, by decide, Or.inl (searchTouches_past (c := 2) (k := 6) (by decide))⟩
  exact ⟨wellFormed_smallBPB, Or.inl ⟨rfl, by decide, by decide⟩, htouch,
    fun hkeeps => absurd (hkeeps 8 htouch) (by decide)⟩

end DuvuvurKernel.Fat
