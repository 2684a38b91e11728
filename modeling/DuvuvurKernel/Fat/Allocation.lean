import DuvuvurKernel.Fat.Volume

/-!
# Cluster chains and their allocation

`ExtendCluster` and `AllocateClusterChain`. Both take the free clusters in the order
of their numbers, from 2 up, and link them behind a cluster (`chainUp`); the loops
are undefined where they would look past the end of the FAT. `extendCluster_eq` and
`allocateClusterChain_eq` say what they do on any volume, and the lemmas on
`chainUp` what this means for the chains.
-/

namespace DuvuvurKernel.Fat

open Lib.Chains

variable (g : BPB) (v : Volume)

/-- The loop of `ExtendCluster` to the end of a chain. A chain that has not ended after as many
steps as the FAT has entries never does. -/
def endOfChain : ℕ → ℕ → Option ℕ
  | 0, _ => none
  | n + 1, cluster => do
    let next ← v.fatAt g cluster
    if isEndOfClusterchain next then some cluster else endOfChain n next

/-- The loop of `ExtendCluster` over the candidates, the last `k` of the FAT: `n` of them are still
to be linked behind `current`. -/
def linkCandidates : ℕ → ℕ → ℕ → ℕ → Volume → Option (ℕ × Volume)
  | _, _, 0, current, v => some (current, v)
  | 0, _, _ + 1, _, _ => none
  | k + 1, candidate, n + 1, current, v => do
    let entry ← v.fatAt g candidate
    if entry ≠ 0 then linkCandidates k (candidate + 1) (n + 1) current v
    else do
      let v ← v.setFat g current candidate
      linkCandidates k (candidate + 1) n candidate v

/-- `ExtendCluster`: the new last cluster, and the volume. -/
def extendCluster (eocCluster n : ℕ) : Option (ℕ × Volume) := do
  let eocCluster ← endOfChain g v g.fatEntries eocCluster
  let (current, v) ← linkCandidates g (g.fatEntries - 2) 2 n eocCluster v
  let v ← v.setFat g current kEndOfClusterchain
  some (current, v)

/-- The loop of `AllocateClusterChain` for a free cluster, over the last `k` of the FAT. -/
def firstFree : ℕ → ℕ → Option ℕ
  | 0, _ => none
  | k + 1, cluster => do
    let entry ← v.fatAt g cluster
    if entry = 0 then some cluster else firstFree k (cluster + 1)

/-- `AllocateClusterChain`: the first cluster of the chain, and the volume. -/
def allocateClusterChain (n : ℕ) : Option (ℕ × Volume) := do
  let firstCluster ← firstFree g v (g.fatEntries - 2) 2
  let v ← v.setFat g firstCluster kEndOfClusterchain
  if n > 1 then do
    let (_, v) ← extendCluster g v firstCluster (n - 1)
    some (firstCluster, v)
  else some (firstCluster, v)

/-! ### The chains -/

/-- The cluster after a cluster, if it is not the last of its chain. -/
def next (fat : ℕ → ℕ) (cluster : ℕ) : Option ℕ :=
  if isEndOfClusterchain (fat cluster) then none else some (fat cluster)

/-- What the boot sector of a volume gives: cluster numbers are never end marks, and every cluster
has an entry. -/
structure BPB.WellFormed : Prop where
  bytesPerCluster_pos : 0 < g.bytesPerCluster
  endCluster_le : g.endCluster ≤ g.fatEntries
  fatEntries_le : g.fatEntries ≤ 0x0ffffff8

/-- The free clusters among the `k` from `cluster` on. -/
def freeFrom (fat : ℕ → ℕ) (cluster k : ℕ) : List ℕ := (List.range' cluster k).filter fun c => fat c = 0

/-- The free clusters. -/
def free (fat : ℕ → ℕ) : List ℕ := freeFrom fat 2 (g.fatEntries - 2)

/-- The FAT with the clusters `cs` linked behind `current`. -/
def chainUp (fat : ℕ → ℕ) (current : ℕ) : List ℕ → (ℕ → ℕ)
  | [] => Function.update fat current kEndOfClusterchain
  | c :: cs => chainUp (Function.update fat current c) c cs

variable {g v} {fat : ℕ → ℕ} {cs ns : List ℕ} {c current n k : ℕ}

theorem mem_freeFrom {x : ℕ} : x ∈ freeFrom fat c k ↔ (c ≤ x ∧ x < c + k) ∧ fat x = 0 := by
  simp [freeFrom, List.mem_range'_1]

theorem nodup_free : (free g fat).Nodup := (List.nodup_range').filter _

theorem mem_free {x : ℕ} : x ∈ free g fat ↔ (2 ≤ x ∧ x < g.fatEntries) ∧ fat x = 0 := by
  rw [free, mem_freeFrom]
  constructor <;> rintro ⟨h, h'⟩ <;> exact ⟨by omega, h'⟩

theorem next_eq_none : next fat c = none ↔ isEndOfClusterchain (fat c) := by
  simp [next]

theorem next_update_self {x : ℕ} (hx : x < 0x0ffffff8) : next (Function.update fat c x) c = some x := by
  simp [next, isEndOfClusterchain, hx]

theorem next_congr {fat' : ℕ → ℕ} (h : fat' c = fat c) : next fat' c = next fat c := by
  rw [next, next, h]

/-- Clusters that are not linked keep their entries. -/
theorem chainUp_of_notMem {x : ℕ} (hx : x ∉ current :: ns) : chainUp fat current ns x = fat x := by
  induction ns generalizing fat current with
  | nil => exact Function.update_of_ne (by simpa using hx) _ _
  | cons n ns ih =>
    rw [chainUp, ih (fun h => hx (List.mem_cons_of_mem _ h))]
    exact Function.update_of_ne (fun h : x = current => hx (h ▸ List.mem_cons_self)) _ _

theorem chainUp_update (x : ℕ) : chainUp (Function.update fat current x) current ns = chainUp fat current ns := by
  cases ns with
  | nil => exact Function.update_idem _ _ _
  | cons n ns => rw [chainUp, chainUp, Function.update_idem]

/-- The clusters that are linked form a chain. -/
theorem linked_chainUp (hn : (current :: ns).Nodup) (hlt : ∀ x ∈ ns, x < 0x0ffffff8) :
    Linked (next (chainUp fat current ns)) current (current :: ns) := by
  induction ns generalizing fat current with
  | nil => exact .last (by simp [next_eq_none, chainUp, isEndOfClusterchain, kEndOfClusterchain])
  | cons n ns ih =>
    obtain ⟨hcur, hns⟩ := List.nodup_cons.mp hn
    refine .cons ?_ (ih hns fun x hx => hlt x (List.mem_cons_of_mem _ hx))
    rw [chainUp, next_congr (chainUp_of_notMem hcur)]
    exact next_update_self (hlt n List.mem_cons_self)

/-- The clusters that are linked are not free. -/
theorem chainUp_ne_zero (h0 : 0 ∉ ns) {x : ℕ} (hx : x ∈ current :: ns) : chainUp fat current ns x ≠ 0 := by
  induction ns generalizing fat current with
  | nil =>
    obtain rfl : x = current := by simpa using hx
    simp [chainUp, kEndOfClusterchain]
  | cons n ns ih =>
    by_cases hxn : x ∈ n :: ns
    · exact ih (fun h => h0 (List.mem_cons_of_mem _ h)) hxn
    · obtain rfl : x = current := (List.mem_cons.mp hx).resolve_right hxn
      rw [chainUp, chainUp_of_notMem hxn, Function.update_self]
      exact fun h => h0 (h ▸ List.mem_cons_self)

/-- A chain whose last cluster has others linked behind it goes on with these. -/
theorem linked_append_chainUp (h : Linked (next fat) c cs) (hns : (cs ++ ns).Nodup)
    (hlt : ∀ x ∈ ns, x < 0x0ffffff8) :
    Linked (next (chainUp fat (cs.getLast h.ne_nil) ns)) c (cs ++ ns) := by
  have hdisj : ∀ x ∈ cs, x ∉ ns := fun x hx hx' => List.disjoint_of_nodup_append hns hx hx'
  cases ns with
  | nil =>
    rw [List.append_nil]
    refine h.congr fun d hd => ?_
    by_cases hl : d = cs.getLast h.ne_nil
    · subst hl
      rw [h.next_getLast, next_eq_none]
      simp [chainUp, isEndOfClusterchain, kEndOfClusterchain]
    · exact next_congr (chainUp_of_notMem (by simpa using hl))
  | cons n ns =>
    have hlast : cs.getLast h.ne_nil ∉ n :: ns := hdisj _ (List.getLast_mem h.ne_nil)
    have hnodup : (cs.getLast h.ne_nil :: n :: ns).Nodup :=
      List.nodup_cons.mpr ⟨hlast, (List.nodup_append.mp hns).2.1⟩
    have hlinked : Linked (next (chainUp fat (cs.getLast h.ne_nil) (n :: ns))) _ _ := linked_chainUp hnodup hlt
    cases hlinked with
    | cons hs ht =>
      have := ht.head?
      rw [List.head?_cons, Option.some.injEq] at this
      subst this
      refine h.append (fun x hx hne => next_congr (chainUp_of_notMem ?_)) hs ht
      rw [List.mem_cons, not_or]
      exact ⟨hne, hdisj x hx⟩

/-- The free clusters after some of them have been linked behind one that is not free. -/
theorem freeFrom_chainUp (h0 : 0 ∉ ns) (hcur : fat current ≠ 0) :
    freeFrom (chainUp fat current ns) c k = (freeFrom fat c k).filter (· ∉ ns) := by
  rw [freeFrom, freeFrom, List.filter_filter]
  refine List.filter_congr fun x _ => ?_
  by_cases hx : x ∈ current :: ns
  · have hne : chainUp fat current ns x ≠ 0 := chainUp_ne_zero h0 hx
    rcases List.mem_cons.mp hx with rfl | hx
    · simp [hne, hcur]
    · simp [hne, hx]
  · rw [chainUp_of_notMem hx]
    have := (not_or.mp (mt List.mem_cons.mpr hx)).2
    simp [this]

theorem filter_notMem_take {l : List ℕ} (h : l.Nodup) (n : ℕ) : l.filter (· ∉ l.take n) = l.drop n := by
  conv_lhs => rw [← List.take_append_drop n l]
  rw [List.filter_append, List.take_append_drop, List.filter_eq_nil_iff.mpr (by simp), List.nil_append,
    List.filter_eq_self.mpr]
  intro x hx
  have := List.disjoint_take_drop h (Nat.le_refl n)
  simpa using fun hx' => this hx' hx

/-- The free clusters after the first of them have been linked. -/
theorem free_chainUp_take (hcur : fat current ≠ 0) (n : ℕ) :
    free g (chainUp fat current ((free g fat).take n)) = (free g fat).drop n := by
  rw [free, freeFrom_chainUp _ hcur]
  · exact filter_notMem_take nodup_free n
  · intro h
    have := (mem_free.mp (List.mem_of_mem_take h)).1.1
    omega

/-! ### What the allocation does -/

theorem freeFrom_succ : freeFrom fat c (k + 1) = if fat c = 0 then c :: freeFrom fat (c + 1) k
    else freeFrom fat (c + 1) k := by
  rw [freeFrom, List.range'_succ, List.filter_cons]
  simp [freeFrom]

theorem free_update {x : ℕ} (hx : x ≠ 0) :
    free g (Function.update fat current x) = (free g fat).filter (· ≠ current) := by
  rw [free, free, freeFrom, freeFrom, List.filter_filter]
  refine List.filter_congr fun y _ => ?_
  by_cases hy : y = current
  · simp [hy, hx]
  · simp [hy]

/-- Linking a candidate behind a cluster that is not a later candidate frees and takes no other. -/
theorem freeFrom_update {x : ℕ} (hx : x ≠ 0) (hcur : fat current ≠ 0 ∨ current < c) :
    freeFrom (Function.update fat current x) c k = freeFrom fat c k := by
  refine List.filter_congr fun y hy => ?_
  by_cases hy' : y = current
  · subst hy'
    have hne : fat y ≠ 0 := hcur.resolve_right (Nat.not_lt.mpr (List.mem_range'_1.mp hy).1)
    simp [hx, hne]
  · rw [Function.update_of_ne hy']

/-- The loop over the candidates and the last assignment of `ExtendCluster`. -/
theorem linkCandidates_eq (hk : c + k = g.fatEntries) (hc : 2 ≤ c) (hcur : current < g.fatEntries)
    (hcur' : v.fat current ≠ 0 ∨ current < c) :
    (linkCandidates g k c n current v).bind (fun p => (p.2.setFat g p.1 kEndOfClusterchain).map fun v => (p.1, v)) =
      if n ≤ (freeFrom v.fat c k).length then
        some (((freeFrom v.fat c k).take n).getLastD current,
          { v with fat := chainUp v.fat current ((freeFrom v.fat c k).take n) })
      else none := by
  induction k generalizing c n current v with
  | zero =>
    cases n with
    | zero => simp [linkCandidates, Volume.setFat, hcur, chainUp]
    | succ n => simp [linkCandidates, freeFrom]
  | succ k ih =>
    cases n with
    | zero => simp [linkCandidates, Volume.setFat, hcur, chainUp]
    | succ n =>
      have hlt : c < g.fatEntries := by omega
      rw [linkCandidates, fatAt_eq hlt, freeFrom_succ]
      by_cases hfree : v.fat c = 0
      · simp only [Option.bind_eq_bind, Option.bind_some, hfree, ne_eq, not_true_eq_false, if_false, if_true]
        rw [Volume.setFat, if_pos hcur, Option.bind_some, ih (by omega) (by omega) hlt (Or.inr (Nat.lt_succ_self c)),
          freeFrom_update (by omega) (hcur'.imp_right Nat.lt_succ_of_lt)]
        by_cases hle : n ≤ (freeFrom v.fat (c + 1) k).length
        · rw [if_pos hle, if_pos (by simpa using hle), List.take_succ_cons, List.getLastD_cons]
          rfl
        · rw [if_neg hle, if_neg (by simpa using hle)]
      · simp only [Option.bind_eq_bind, Option.bind_some, hfree, ne_eq, not_false_eq_true, if_false, if_true]
        exact ih (by omega) (by omega) hcur (hcur'.imp_right fun h => by omega)

theorem endOfChain_eq (h : Linked (next v.fat) c cs) (hlt : ∀ x ∈ cs, x < g.fatEntries) {m : ℕ}
    (hm : cs.length ≤ m) : endOfChain g v m c = some (cs.getLast h.ne_nil) := by
  induction h generalizing m with
  | @last c hn =>
    obtain ⟨m, rfl⟩ := Nat.exists_eq_add_of_le' hm
    simp [endOfChain, fatAt_eq (hlt c (by simp)), next_eq_none.mp hn]
  | @cons c d cs hs h ih =>
    obtain ⟨m, rfl⟩ := Nat.exists_eq_add_of_le' (Nat.le_trans (Nat.le_add_left 1 _) hm)
    have hd : isEndOfClusterchain (v.fat c) = false ∧ v.fat c = d := by
      rw [next] at hs
      split at hs
      next => cases hs
      next he => exact ⟨by simpa using he, Option.some.inj hs⟩
    simp only [endOfChain, fatAt_eq (hlt c (by simp)), Option.bind_eq_bind, Option.bind_some]
    rw [hd.1, if_neg (by simp), hd.2, ih (fun x hx => hlt x (List.mem_cons_of_mem _ hx)) (by simpa using hm),
      List.getLast_cons h.ne_nil]

/-- A chain of the volume: it ends, and its clusters are numbers of clusters. -/
structure IsChain (g : BPB) (fat : ℕ → ℕ) (c : ℕ) (cs : List ℕ) : Prop where
  linked : Linked (next fat) c cs
  lt : ∀ x ∈ cs, 2 ≤ x ∧ x < g.fatEntries

theorem IsChain.length_le (h : IsChain g fat c cs) : cs.length ≤ g.fatEntries := by
  have hsub : cs ⊆ List.range g.fatEntries := fun x hx => List.mem_range.mpr (h.lt x hx).2
  simpa using (h.linked.nodup.subperm hsub).length_le

/-- The clusters of a chain are not free. -/
theorem IsChain.fat_ne_zero (h : IsChain g fat c cs) {x : ℕ} (hx : x ∈ cs) : fat x ≠ 0 := by
  intro h0
  have hnext : next fat x = some 0 := by simp [next, h0, isEndOfClusterchain]
  have := (h.lt 0 (h.linked.next_mem hx hnext)).1
  omega

theorem IsChain.notMem_free (h : IsChain g fat c cs) {x : ℕ} (hx : x ∈ cs) : x ∉ free g fat :=
  fun hf => h.fat_ne_zero hx (mem_free.mp hf).2

/-- **`ExtendCluster`** links the first free clusters behind the last of the chain, if there are
enough. -/
theorem extendCluster_eq (h : IsChain g v.fat c cs) (n : ℕ) :
    extendCluster g v c n =
      if n ≤ (free g v.fat).length then
        some (((free g v.fat).take n).getLastD (cs.getLast h.linked.ne_nil),
          { v with fat := chainUp v.fat (cs.getLast h.linked.ne_nil) ((free g v.fat).take n) })
      else none := by
  have hlast := List.getLast_mem h.linked.ne_nil
  have hmem := h.lt _ hlast
  have hloop := linkCandidates_eq (v := v) (n := n) (show 2 + (g.fatEntries - 2) = g.fatEntries by omega)
    (Nat.le_refl 2) hmem.2 (Or.inl (h.fat_ne_zero hlast))
  rw [free, ← hloop, extendCluster, endOfChain_eq h.linked (fun x hx => (h.lt x hx).2) h.length_le]
  simp only [Option.bind_eq_bind, Option.bind_some]
  refine congrArg _ (funext fun p => ?_)
  cases p.2.setFat g p.1 kEndOfClusterchain <;> rfl

theorem firstFree_eq (hk : c + k = g.fatEntries) : firstFree g v k c = (freeFrom v.fat c k).head? := by
  induction k generalizing c with
  | zero => rfl
  | succ k ih =>
    rw [firstFree, fatAt_eq (by omega), freeFrom_succ]
    by_cases hfree : v.fat c = 0
    · simp [hfree]
    · simpa [hfree] using ih (by omega)

theorem firstFree_eq_head? : firstFree g v (g.fatEntries - 2) 2 = (free g v.fat).head? := by
  rcases Nat.lt_or_ge g.fatEntries 2 with hlt | hge
  · rw [free, Nat.sub_eq_zero_of_le (Nat.le_of_lt hlt)]
    rfl
  · exact firstFree_eq (by omega)

/-- The free clusters after the first of them has been taken. -/
theorem free_update_head {f : ℕ} {fs : List ℕ} (hf : free g fat = f :: fs) :
    free g (Function.update fat f kEndOfClusterchain) = fs := by
  have hnodup : (free g fat).Nodup := nodup_free
  rw [free_update (by decide), hf]
  rw [hf, List.nodup_cons] at hnodup
  rw [List.filter_cons_of_neg (by simp), List.filter_eq_self]
  intro x hx
  have hne : x ≠ f := fun he => hnodup.1 (he ▸ hx)
  simpa using hne

/-- **`AllocateClusterChain`** makes a chain of the first free clusters, at least one, if there are
enough. -/
theorem allocateClusterChain_eq (n : ℕ) {f : ℕ} {fs : List ℕ} (hf : free g v.fat = f :: fs) :
    allocateClusterChain g v n =
      if n - 1 ≤ fs.length then some (f, { v with fat := chainUp v.fat f (fs.take (n - 1)) }) else none := by
  have hmem : f ∈ free g v.fat := by rw [hf]; exact List.mem_cons_self
  have hlt := (mem_free.mp hmem).1
  have hfirst : firstFree g v (g.fatEntries - 2) 2 = some f := by
    rw [firstFree_eq_head?, hf]
    rfl
  have hchain : IsChain g (Function.update v.fat f kEndOfClusterchain) f [f] :=
    ⟨.last (by simp [next_eq_none, isEndOfClusterchain, kEndOfClusterchain]), by simpa using hlt⟩
  have hfree := free_update_head (g := g) hf
  simp only [allocateClusterChain, hfirst, Option.bind_eq_bind, Option.bind_some, Volume.setFat, if_pos hlt.2]
  by_cases hn : n > 1
  · rw [if_pos hn, extendCluster_eq hchain, hfree]
    by_cases hle : n - 1 ≤ fs.length
    · simp only [if_pos hle, Option.bind_some, List.getLast_singleton, chainUp_update]
    · simp [hle]
  · rw [if_neg hn, show n - 1 = 0 by omega, if_pos (Nat.zero_le _)]
    rfl

end DuvuvurKernel.Fat
