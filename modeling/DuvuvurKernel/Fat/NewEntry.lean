import DuvuvurKernel.Fat.Listing
import DuvuvurKernel.Fat.Isolation

/-!
# A new entry in its directory

What `CreateFile` does to the directory of the new file, and to its listing. The slot it takes is the first
that is free or deleted, or the first of a cluster that is added; it sets the name and the size, and
leaves the attributes and the first cluster as the slot had them.

**Result** (`createFile_adds_iff`): the listing afterwards is that of before with the new name in it and the
entry is an empty file without clusters, if and only if the slot, where an old one is taken, had the
attributes of a file and no first cluster.
-/

namespace DuvuvurKernel.Fat

open Lib.Chains

variable (g : BPB) (v : Volume)

/-- Attributes of a regular file: neither a directory's nor a volume label's. -/
def IsRegular (attr : UInt8) : Prop := attr &&& 0x18 = 0

instance (attr : UInt8) : Decidable (IsRegular attr) := inferInstanceAs (Decidable (_ = _))

/-- An 8.3 file name. -/
structure IsName83 (name : List UInt8) : Prop where
  canonical : IsCanonical name
  ascii : ∀ x ∈ name, 0 < x ∧ x < 128
  base : name.head? ≠ none ∧ name.head? ≠ some dot

/-- All slots behind the terminator of a directory are zero. -/
def ZeroBehind (cs : List ℕ) : Prop :=
  ∀ before e behind, slots g cs = before ++ e :: behind → v.byte e 0 = 0 →
    ∀ e' ∈ behind, ∀ k < entrySize, v.byte e' k = 0

/-- What is to be so after the file `name` has been made in the slot `e` of the directory at `c`: it is
listed in addition, it is an empty regular file, and no other slot of any directory has changed. -/
structure AddsOne (v' : Volume) (c : ℕ) (e : EntryPtr) (name : List UInt8) : Prop where
  listing : ∃ before behind, listAllEntries g v c = some (before ++ behind) ∧
    listAllEntries g v' c = some (before ++ name.map toupper :: behind)
  regular : IsRegular (v'.attr e)
  size : v'.fileSize e = 0
  noCluster : v'.firstCluster e = 0
  others : ∀ first ds e', IsChain g v.fat first ds → IsSlot g ds e' → e' ≠ e → SameEntry v v' e'

/-- The slot that is taken, if it is an old one, was that of a file without clusters. -/
def TakesPlain (cs : List ℕ) : Prop :=
  ∀ e, (slots g cs).find? v.isFreeSlot = some e → IsRegular (v.attr e) ∧ v.firstCluster e = 0

/-- What `CreateFile` has done in a directory with the clusters `cs`, to which `ns` has been added. -/
structure NewEntry (v' : Volume) (first : ℕ) (cs ns : List ℕ) (e : EntryPtr) (name : List UInt8) : Prop where
  chain : IsChain g v'.fat first (cs ++ ns)
  inData : ∀ x ∈ cs ++ ns, g.InData x
  slot : IsSlot g (cs ++ ns) e
  placed : (ns = [] ∧ (slots g cs).find? v.isFreeSlot = some e) ∨
    (ns = [e.cluster] ∧ e.index = 0 ∧ v.fat e.cluster = 0 ∧ (slots g cs).find? v.isFreeSlot = none)
  fat : ∀ x, x ∉ cs ++ ns → v'.fat x = v.fat x
  name : v'.name e = shortName name
  size : v'.fileSize e = 0
  same : ∀ x o, x ∉ ns → x ≠ e.cluster ∨ o < e.offset 0 ∨ e.offset entrySize ≤ o → v'.data x o = v.data x o
  kept : ns = [] → ∀ k, 11 ≤ k → k < 28 → v'.byte e k = v.byte e k
  zero : ns ≠ [] → (∀ k, 11 ≤ k → k < 28 → v'.byte e k = 0) ∧
    ∀ e', IsSlot g ns e' → e' ≠ e → ∀ k < entrySize, v'.byte e' k = 0

variable {g v} {v' : Volume} {cs ns : List ℕ} {c first : ℕ} {name path : List UInt8} {e : EntryPtr}

/-! ### The slot -/

/-- A round of the loop of `AllocateEntry`. -/
theorem searchSlot_succ (h : Clustered g (c :: cs)) (fuel : ℕ) :
    searchSlot g v (fuel + 1) c = ((slots g [c]).find? v.isFreeSlot).elim
      (if (next v.fat c).getD kEndOfClusterchain = kEndOfClusterchain then some (.inr c)
        else searchSlot g v fuel ((next v.fat c).getD kEndOfClusterchain)) fun e => some (.inl e) := by
  rw [searchSlot, if_pos (h.inData c List.mem_cons_self), slots, List.flatMap_singleton, List.find?_map,
    nextCluster_eq (h.lt c List.mem_cons_self)]
  have hslot : (v.isFreeSlot ∘ fun i => (⟨c, i⟩ : EntryPtr)) = fun i => v.isFreeSlot ⟨c, i⟩ := rfl
  rw [hslot]
  cases (List.range g.entriesPerCluster).find? fun i => v.isFreeSlot ⟨c, i⟩ <;> rfl

/-- **The loop of `AllocateEntry`** finds the first free slot of the directory. -/
theorem searchSlot_slots (h : Linked (next v.fat) c cs) (hcs : Clustered g cs) {fuel : ℕ} (hfuel : cs.length ≤ fuel) :
    searchSlot g v fuel c = some (((slots g cs).find? v.isFreeSlot).elim (.inr (cs.getLast h.ne_nil)) .inl) := by
  induction h generalizing fuel with
  | @last c hn =>
    obtain ⟨fuel, rfl⟩ := Nat.exists_eq_add_of_le' (show 1 ≤ fuel from hfuel)
    rw [searchSlot_succ hcs, hn, Option.getD_none, if_pos rfl]
    cases (slots g [c]).find? v.isFreeSlot <;> rfl
  | @cons c d cs hs ht ih =>
    obtain ⟨fuel, rfl⟩ := Nat.exists_eq_add_of_le' (Nat.le_trans (Nat.le_add_left 1 _) hfuel)
    rw [searchSlot_succ hcs, hs, Option.getD_some, if_neg (hcs.tail.ne_end d ht.mem_self),
      ih hcs.tail (by simpa using hfuel), show slots g (c :: cs) = slots g [c] ++ slots g cs from slots_append [c] cs,
        List.find?_append]
    cases (slots g [c]).find? v.isFreeSlot with
    | some e => rfl
    | none => simp [List.getLast_cons ht.ne_nil]

/-- What `AllocateEntry` does: an old slot is taken as it is, or one in a new cluster of zeros. -/
theorem allocateEntry_cases (hg : g.WellFormed) (h : IsChain g v.fat first cs) (hdata : ∀ x ∈ cs, g.InData x)
    (ha : allocateEntry g v first = some (e, v')) :
    ((slots g cs).find? v.isFreeSlot = some e ∧ v' = v) ∨
    ((slots g cs).find? v.isFreeSlot = none ∧ Extends g first cs 1 v.fat v'.fat ∧ (free g v.fat).take 1 = [e.cluster] ∧
      e.index = 0 ∧ (∀ x, x ≠ e.cluster → v'.data x = v.data x) ∧
          ∀ o < g.bytesPerCluster, v'.data e.cluster o = 0) := by
  have hsearch := searchSlot_slots h.linked (h.clustered hg hdata) h.length_le
  cases hfind : (slots g cs).find? v.isFreeSlot with
  | some s =>
    rw [hfind, Option.elim_some] at hsearch
    rw [allocateEntry, hsearch] at ha
    cases ha
    exact Or.inl ⟨rfl, rfl⟩
  | none =>
    rw [hfind, Option.elim_none] at hsearch
    rcases of_allocateEntry hg h ha with ⟨-, hinl, -⟩ | hnew
    · rw [hsearch] at hinl
      cases hinl
    · exact Or.inr ⟨rfl, hnew⟩

theorem name_of_setFileName (h : setFileName g v e name = some v') : v'.name e = shortName name := by
  refine List.ext_getElem (by rw [length_name, length_shortName]) fun k hk hk' => ?_
  have hwritten := byte_of_write h hk'
  rw [Nat.zero_add] at hwritten
  simp only [Volume.name, List.getElem_map, List.getElem_range]
  exact hwritten

theorem name_of_setFileSize {size : ℕ} (h : v.setFileSize g e size = some v') : v'.name e = v.name e := by
  obtain ⟨-, -, hbyte⟩ := of_setFileSize h
  exact List.map_congr_left fun k hk => hbyte k (Nat.lt_trans (List.mem_range.mp hk) (by decide))

/-- **What `CreateFile` does to the directory.** -/
theorem createFile_newEntry (hg : g.WellFormed) (h : IsChain g v.fat first cs) (hdata : ∀ x ∈ cs, g.InData x)
    (hparent : parentDirectory g v path = some (.ok (first, name))) (hc : createFile g v path = some (.ok e, v')) :
    ∃ ns, NewEntry g v v' first cs ns e name := by
  obtain ⟨r, h1, hc⟩ := Option.bind_eq_some_iff.mp hc
  rw [hparent] at h1
  cases h1
  obtain ⟨⟨e', v₁⟩, h2, hc⟩ := Option.bind_eq_some_iff.mp hc
  obtain ⟨v₂, h3, hc⟩ := Option.bind_eq_some_iff.mp hc
  obtain ⟨v₃, h4, hc⟩ := Option.bind_eq_some_iff.mp hc
  cases hc
  obtain ⟨honly, hbyte⟩ := of_setNameSize h3 h4
  have hname := (name_of_setFileSize h4).trans (name_of_setFileName h3)
  have hsize : v'.fileSize e = 0 := (of_setFileSize h4).2.1
  have hin := of_write h3
  rcases allocateEntry_cases hg h hdata h2 with ⟨h5, rfl⟩ | ⟨h5, h6, h7, h8, h9, h10⟩
  · refine ⟨[], ?_, ?_, (mem_slots.mp (List.mem_of_find?_eq_some h5)).of_append_left, Or.inl ⟨rfl, h5⟩,
      fun x _ => by rw [honly.fat], hname, hsize, fun x o _ hxo => honly.data x o hxo, fun _ => hbyte,
      fun hne => absurd rfl hne⟩
    · rw [List.append_nil, honly.fat]
      exact h
    · rwa [List.append_nil]
  · have hfree := mem_free.mp (List.mem_of_mem_take (h7 ▸ List.mem_singleton_self _ :
      e.cluster ∈ (free g v.fat).take 1))
    have hzero : ∀ e', e'.cluster = e.cluster → e'.offset entrySize ≤ g.bytesPerCluster →
        ∀ k < entrySize, v₁.byte e' k = 0 := by
      intro e' he' hle k hk
      rw [Volume.byte, he']
      exact h10 _ (Nat.lt_of_lt_of_le (Nat.add_lt_add_left hk _) hle)
    have hnew : ∀ k, 11 ≤ k → k < 28 → v'.byte e k = 0 := fun k hk hk' => by
      rw [hbyte k hk hk']
      exact hzero e rfl (inCluster_of_setFileSize h4).2 k (Nat.lt_trans hk' (by decide))
    have hothers : ∀ e', IsSlot g [e.cluster] e' → e' ≠ e → ∀ k < entrySize, v'.byte e' k = 0 :=
        fun e' he' hne k hk => by
      rw [honly.byte_of_ne hne hk]
      exact hzero e' (List.mem_singleton.mp he'.mem) he'.offset_le k hk
    have hslot : IsSlot g (cs ++ [e.cluster]) e := by
      refine ⟨by simp, ?_⟩
      have hle := (inCluster_of_setFileSize h4).2
      rw [EntryPtr.offset, ← Nat.mul_succ] at hle
      rw [BPB.entriesPerCluster, ← Nat.succ_le_iff, Nat.le_div_iff_mul_le (by decide), Nat.mul_comm]
      exact hle
    refine ⟨[e.cluster], ?_, ?_, hslot, Or.inr ⟨rfl, h8, hfree.2, h5⟩,
      fun x hx => ?_, hname, hsize, fun x o hx hxo => ?_, (fun hnil => by cases hnil), fun _ => ⟨hnew, hothers⟩⟩
    · rw [honly.fat, ← h7]
      exact h6.chain
    · intro x hx
      rcases List.mem_append.mp hx with hx | hx
      · exact hdata x hx
      · rw [List.mem_singleton.mp hx]
        exact hin.1.1
    · rw [honly.fat, h6.other x (by rwa [h7])]
    · rw [honly.data x o hxo, h9 x (by simpa using hx)]

/-! ### The other slots -/

/-- No other slot of a directory has changed. -/
theorem NewEntry.sameEntry (h : NewEntry g v v' first cs ns e name) {c : ℕ} {ds : List ℕ} {e' : EntryPtr}
    (hds : IsChain g v.fat c ds) (hslot : IsSlot g ds e') (hne : e' ≠ e) : SameEntry v v' e' := by
  intro k hk
  refine h.same _ _ (fun hmem => ?_) (EntryPtr.apart hne hk)
  rcases h.placed with ⟨rfl, -⟩ | ⟨rfl, -, hfree, -⟩
  · cases hmem
  · exact hds.fat_ne_zero hslot.mem (List.mem_singleton.mp hmem ▸ hfree)

theorem nodup_slots (h : cs.Nodup) : (slots g cs).Nodup := by
  refine List.nodup_flatMap.mpr ⟨fun c _ => ?_, h.imp fun hne => ?_⟩
  · exact List.nodup_range.map fun i j hij => (EntryPtr.mk.inj hij).2
  · intro x hx hx'
    obtain ⟨i, -, rfl⟩ := List.mem_map.mp hx
    obtain ⟨j, -, hj⟩ := List.mem_map.mp hx'
    exact hne (EntryPtr.mk.inj hj).1.symm

theorem takeWhile_congr {α : Type*} {p q : α → Bool} {l : List α} (h : ∀ x ∈ l, p x = q x) :
    l.takeWhile p = l.takeWhile q := by
  induction l with
  | nil => rfl
  | cons x l ih =>
    rw [List.takeWhile_cons, List.takeWhile_cons, h x List.mem_cons_self,
      ih fun y hy => h y (List.mem_cons_of_mem _ hy)]

theorem takeWhile_eq_nil {α : Type*} {p : α → Bool} {l : List α} (h : ∀ x ∈ l, p x = false) : l.takeWhile p = [] := by
  cases l with
  | nil => rfl
  | cons x l => exact List.takeWhile_cons_of_neg (by rw [h x List.mem_cons_self]; exact Bool.false_ne_true)

theorem SameEntry.isListed (h : SameEntry v v' e) : v'.isListed e = v.isListed e := by
  rw [Volume.isListed, Volume.isListed, h.attr, h 0 (by decide)]

theorem SameEntry.formatName (h : SameEntry v v' e) : formatName v' e = formatName v e := by
  rw [Fat.formatName, Fat.formatName, readName, readName, h.name]

theorem entries_congr {es : List EntryPtr} (h : ∀ x ∈ es, SameEntry v v' x) :
    (es.takeWhile fun x => v'.byte x 0 ≠ 0) = es.takeWhile fun x => v.byte x 0 ≠ 0 :=
  takeWhile_congr fun x hx => by rw [h x hx 0 (by decide)]

theorem filter_listed_congr {es : List EntryPtr} (h : ∀ x ∈ es, SameEntry v v' x) :
    es.filter v'.isListed = es.filter v.isListed :=
  List.filter_congr fun x hx => (h x hx).isListed

/-- The slots of a cluster, from its first on. -/
theorem slots_first (hindex : e.index = 0) (hlt : e.index < g.entriesPerCluster) :
    ∃ rest, slots g [e.cluster] = e :: rest ∧ ∀ x ∈ rest, IsSlot g [e.cluster] x ∧ x ≠ e := by
  have he : (⟨e.cluster, 0⟩ : EntryPtr) = e := by rw [← hindex]
  obtain ⟨n, hn⟩ := Nat.exists_eq_add_of_le' (Nat.lt_of_le_of_lt (Nat.zero_le _) hlt)
  have hslots : slots g [e.cluster] = e :: (List.range n).map fun i => ⟨e.cluster, i + 1⟩ := by
    rw [slots, List.flatMap_singleton, hn, List.range_succ_eq_map, List.map_cons, List.map_map, he]
    rfl
  refine ⟨_, hslots, fun x hx => ⟨mem_slots.mp (hslots ▸ List.mem_cons_of_mem _ hx), ?_⟩⟩
  obtain ⟨i, -, rfl⟩ := List.mem_map.mp hx
  rintro hx
  rw [← hx] at hindex
  cases hindex

/-- **The listing** gets the new entry, if it is listed, in its place. -/
theorem NewEntry.listed (h : NewEntry g v v' first cs ns e name) (hchain : IsChain g v.fat first cs)
    (hz : ZeroBehind g v cs) (hb : v'.byte e 0 ≠ 0) :
    ∃ before behind, v.listed g cs = before ++ behind ∧
      v'.listed g (cs ++ ns) = before ++ ((if v'.isListed e then [e] else []) ++ behind) ∧
      ∀ x ∈ before ++ behind, SameEntry v v' x := by
  have hnodup := nodup_slots (g := g) hchain.linked.nodup
  rcases h.placed with ⟨rfl, hfind⟩ | ⟨rfl, hindex, hfree, hfind⟩
  · obtain ⟨hefree, before, behind, hslots, hbefore⟩ := List.find?_eq_some_iff_append.mp hfind
    rw [hslots] at hnodup
    have hne := (List.nodup_middle.mp hnodup)
    have hsame : ∀ x ∈ before ++ behind, SameEntry v v' x := by
      intro x hx
      refine h.sameEntry hchain (mem_slots.mp ?_) fun he => (List.nodup_cons.mp hne).1 (he ▸ hx)
      rw [hslots]
      exact List.perm_middle.mem_iff.mpr (List.mem_cons_of_mem _ hx)
    have hpos : ∀ x ∈ before, decide (v.byte x 0 ≠ 0) = true := fun x hx => by
      have hused := hbefore x hx
      simp only [Volume.isFreeSlot, Bool.not_eq_true', decide_eq_false_iff_not, not_or] at hused
      simpa using hused.1
    have hpos' : ∀ x ∈ before, decide (v'.byte x 0 ≠ 0) = true := fun x hx => by
      rw [hsame x (List.mem_append_left _ hx) 0 (by decide)]
      exact hpos x hx
    have hold : ((e :: behind).takeWhile fun x => v.byte x 0 ≠ 0).filter v.isListed =
        (behind.takeWhile fun x => v.byte x 0 ≠ 0).filter v.isListed := by
      by_cases hzero : v.byte e 0 = 0
      · have hbehind := hz before e behind hslots hzero
        rw [List.takeWhile_cons_of_neg (by simpa using hzero), takeWhile_eq_nil fun x hx => by
          simpa using hbehind x hx 0 (by decide)]
      · have hdeleted : v.byte e 0 = 0xe5 := by simpa [Volume.isFreeSlot, hzero] using hefree
        rw [List.takeWhile_cons_of_pos (by simpa using hzero),
          List.filter_cons_of_neg (by simp [Volume.isListed, hdeleted])]
    refine ⟨before.filter v.isListed, (behind.takeWhile fun x => v.byte x 0 ≠ 0).filter v.isListed, ?_, ?_, ?_⟩
    · rw [Volume.listed, Volume.entries, hslots, List.takeWhile_append_of_pos hpos, List.filter_append, hold]
    · rw [List.append_nil, Volume.listed, Volume.entries, hslots, List.takeWhile_append_of_pos hpos',
        List.takeWhile_cons_of_pos (by simpa using hb), entries_congr fun x hx => hsame x (List.mem_append_right _ hx)]
      rw [List.filter_append, List.filter_cons, filter_listed_congr fun x hx => hsame x (List.mem_append_left _ hx),
        filter_listed_congr fun x hx => hsame x (List.mem_append_right _ ((List.takeWhile_prefix _).subset hx))]
      split <;> rfl
    · intro x hx
      refine hsame x ((List.mem_append.mp hx).elim (fun hx => ?_) fun hx => ?_)
      · exact List.mem_append_left _ (List.mem_of_mem_filter hx)
      · exact List.mem_append_right _ ((List.takeWhile_prefix _).subset (List.mem_of_mem_filter hx))
  · have hused : ∀ x ∈ slots g cs, v.byte x 0 ≠ 0 := fun x hx hzero => by
      have hnot := List.find?_eq_none.mp hfind x hx
      exact hnot (isFreeSlot_of_zero hzero)
    have hsame : ∀ x ∈ slots g cs, SameEntry v v' x := fun x hx => by
      refine h.sameEntry hchain (mem_slots.mp hx) fun he => ?_
      exact hchain.fat_ne_zero (he ▸ (mem_slots.mp hx).mem) hfree
    have hpos : ∀ x ∈ slots g cs, decide (v.byte x 0 ≠ 0) = true := fun x hx => by simpa using hused x hx
    have hpos' : ∀ x ∈ slots g cs, decide (v'.byte x 0 ≠ 0) = true := fun x hx => by
      rw [hsame x hx 0 (by decide)]
      exact hpos x hx
    obtain ⟨rest, hrest, hmem⟩ := slots_first hindex h.slot.lt
    have hzero : ∀ x ∈ rest, decide (v'.byte x 0 ≠ 0) = false := fun x hx => by
      have hzero := (h.zero (by simp)).2 x (hmem x hx).1 (hmem x hx).2 0 (by decide)
      simpa using hzero
    refine ⟨(slots g cs).filter v.isListed, [], ?_, ?_, ?_⟩
    · rw [List.append_nil, Volume.listed, Volume.entries, List.takeWhile_eq_self_iff.mpr hpos]
    · rw [Volume.listed, Volume.entries, slots_append, List.takeWhile_append_of_pos hpos', hrest,
        List.takeWhile_cons_of_pos (by simpa using hb), takeWhile_eq_nil hzero, List.filter_append,
          List.filter_singleton,
        List.append_nil, filter_listed_congr hsame]
      cases v'.isListed e <;> rfl
    · intro x hx
      rw [List.append_nil] at hx
      exact hsame x (List.mem_of_mem_filter hx)

/-! ### The new entry -/

theorem IsCanonical.shortName (h : IsCanonical name) : shortName name = name83 name := by
  rcases h.cases with ⟨hdot, htrim⟩ | ⟨base, ext, rfl, hdot, hdot', htrim, -, -⟩
  · rw [shortName_of_notMem hdot, name83_base hdot htrim.1]
  · rw [shortName_dot hdot', name83_dot hdot hdot' htrim.1]

theorem head?_name : (v.name e).head? = some (v.byte e 0) := rfl

/-- The first byte of the name neither ends the directory nor marks a deleted entry. -/
theorem IsName83.head (h : IsName83 name) : ∃ x, (Fat.shortName name).head? = some x ∧ x ≠ 0 ∧ x ≠ 0xe5 := by
  have hfirst : ∀ (x : UInt8) (xs : List UInt8) (n : ℕ) (rest : List UInt8), (padName (n + 1) (x :: xs) ++ rest).head? =
      some (toupper x) := by
    intro x xs n rest
    simp [padName]
  have hupper : ∀ x : UInt8, 0 < x → x < 128 → toupper x ≠ 0 ∧ toupper x ≠ 0xe5 := by
    intro x
    simp only [toupper]
    grind
  obtain ⟨x, xs, rfl⟩ : ∃ x xs, name = x :: xs := by
    cases name with
    | nil => exact absurd rfl h.base.1
    | cons x xs => exact ⟨x, xs, rfl⟩
  have hx := h.ascii x List.mem_cons_self
  have hne : x ≠ dot := fun he => h.base.2 (congrArg some he)
  refine ⟨toupper x, ?_, hupper x hx.1 hx.2⟩
  rcases h.canonical.cases with ⟨hdot, -⟩ | ⟨base, ext, hname, -, hdot', -⟩
  · rw [shortName_of_notMem hdot, hfirst]
  · cases base with
    | nil => exact absurd (List.cons.inj hname).1 hne
    | cons y ys =>
      obtain ⟨rfl, -⟩ := List.cons.inj hname
      rw [hname, shortName_dot hdot', hfirst]

/-- What the slot was decides the other fields of the entry. -/
theorem NewEntry.takesPlain_iff (h : NewEntry g v v' first cs ns e name) :
    (IsRegular (v'.attr e) ∧ v'.firstCluster e = 0) ↔ TakesPlain g v cs := by
  rcases h.placed with ⟨rfl, hfind⟩ | ⟨rfl, -, -, hfind⟩
  · have hkept := h.kept rfl
    have hfirst : v'.firstCluster e = v.firstCluster e := by
      rw [Volume.firstCluster, Volume.firstCluster,
        word_congr (hkept 26 (by decide) (by decide)) (hkept 27 (by decide) (by decide)),
          word_congr (hkept 20 (by decide) (by decide)) (hkept 21 (by decide) (by decide))]
    rw [hfirst, show v'.attr e = v.attr e from hkept 11 (by decide) (by decide), TakesPlain, hfind]
    simp
  · have hzero := (h.zero (by simp)).1
    have hfirst : v'.firstCluster e = 0 := by
      simp [Volume.firstCluster, Volume.word, hzero 20 (by decide) (by decide), hzero 21 (by decide) (by decide),
        hzero 26 (by decide) (by decide), hzero 27 (by decide) (by decide)]
    rw [hfirst, show v'.attr e = 0 from hzero 11 (by decide) (by decide), TakesPlain, hfind]
    simp [IsRegular]

theorem IsRegular.ne_longName {attr : UInt8} (h : IsRegular attr) : attr ≠ kLongName := by
  rintro rfl
  exact absurd h (by decide)

/-- **`CreateFile` adds one entry**, that of an empty file, if and only if the old slot it takes, if there
is one, was that of a file without clusters. -/
theorem createFile_adds_iff (hg : g.WellFormed) (h : IsChain g v.fat first cs) (hdata : ∀ x ∈ cs, g.InData x)
    (hz : ZeroBehind g v cs) (hname : IsName83 name) (hparent : parentDirectory g v path = some (.ok (first, name)))
    (hc : createFile g v path = some (.ok e, v')) : AddsOne g v v' first e name ↔ TakesPlain g v cs := by
  obtain ⟨ns, hnew⟩ := createFile_newEntry hg h hdata hparent hc
  rw [← hnew.takesPlain_iff]
  refine ⟨fun hadds => ⟨hadds.regular, hadds.noCluster⟩, fun hplain => ?_⟩
  obtain ⟨x, hx, hzero, hdeleted⟩ := hname.head
  rw [← hnew.name, head?_name, Option.some.injEq] at hx
  subst hx
  have hlisted : v'.isListed e = true := by simpa [Volume.isListed] using ⟨hdeleted, hplain.1.ne_longName⟩
  have htext : formatName v' e = name.map toupper :=
    hname.canonical.formatName (fun h0 => absurd (hname.ascii 0 h0).1 (by decide)) (hnew.name.trans
      hname.canonical.shortName)
  obtain ⟨before, behind, hold, hlist, hsame⟩ := hnew.listed h hz hzero
  rw [hlisted, if_pos rfl] at hlist
  refine ⟨⟨before.map (formatName v), behind.map (formatName v), ?_, ?_⟩, hplain.1, hnew.size, hplain.2,
    fun first ds e' hds hslot hne => hnew.sameEntry hds hslot hne⟩
  · rw [listAllEntries_eq hg h hdata, hold, List.map_append]
  · rw [listAllEntries_eq hg hnew.chain hnew.inData, hlist, List.map_append, List.singleton_append, List.map_cons,
      htext, List.map_congr_left fun x hx => (hsame x (List.mem_append_left _ hx)).formatName,
      List.map_congr_left fun x hx => (hsame x (List.mem_append_right _ hx)).formatName]

/-- A file is made in an empty root directory. -/
theorem createFile_adds_emptyVolume : AddsOne smallBPB emptyVolume createdVolume 2 ⟨2, 0⟩ [66] := by
  have hzero : ZeroBehind smallBPB emptyVolume [2] := fun _ _ _ _ _ _ _ _ _ => rfl
  have hname : IsName83 [66] := ⟨by decide, by simp, by decide⟩
  have hparent : parentDirectory smallBPB emptyVolume [66] = some (.ok (2, [66])) := rfl
  have hchain : IsChain smallBPB emptyVolume.fat 2 [2] := isChain_singleton (by decide) (by decide)
  refine (createFile_adds_iff wellFormed_smallBPB hchain (by decide) hzero hname hparent rfl).mpr fun e he => ?_
  rw [show (slots smallBPB [2]).find? emptyVolume.isFreeSlot = some ⟨2, 0⟩ by rfl, Option.some.injEq] at he
  subst he
  exact ⟨by decide, by decide⟩

/-- A root directory with a deleted entry of a long name. -/
def longNameVolume : Volume := bytesVolume (letterEntry 0xe5 kLongName 0)

/-- The volume after a file `B` has been created. -/
def hiddenVolume : Volume := ((createFile smallBPB longNameVolume [66]).map Prod.snd).getD longNameVolume

/-- A new file in the slot of a deleted long name is not listed. -/
theorem not_adds_longName : smallBPB.WellFormed ∧ IsChain smallBPB longNameVolume.fat 2 [2] ∧
    createFile smallBPB longNameVolume [66] = some (.ok ⟨2, 0⟩, hiddenVolume) ∧
      listAllEntries smallBPB hiddenVolume 2 = some [] ∧
    ¬ AddsOne smallBPB longNameVolume hiddenVolume 2 ⟨2, 0⟩ [66] := by
  have hlist : listAllEntries smallBPB hiddenVolume 2 = some [] := by decide
  refine ⟨wellFormed_smallBPB, isChain_singleton (by decide) (by decide), rfl, hlist, fun hadds => ?_⟩
  obtain ⟨before, behind, -, hnew⟩ := hadds.listing
  rw [hlist, Option.some.injEq] at hnew
  simp at hnew

end DuvuvurKernel.Fat
