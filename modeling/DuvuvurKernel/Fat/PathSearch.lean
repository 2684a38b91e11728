import DuvuvurKernel.Fat.Names
import DuvuvurKernel.Fat.RoundTrip

/-!
# Path resolution

What `FindFile` finds. A directory is the list of its slots, cluster by cluster, and its entries are
those before the first that begins with 0; a component of a path selects the first entry that
`NameIsEqual` accepts (`findInDirectory_eq`).

**Result** (`findFile_resolves`): along directories whose chains end, `FindFile` resolves a path component by
component (`resolve`), and says whether a slash follows the last component it has looked up.
-/

namespace DuvuvurKernel.Fat

open Lib.Chains

variable (g : BPB) (v : Volume)

/-- The slots of a directory with the clusters `cs`. -/
def slots (cs : List ℕ) : List EntryPtr := cs.flatMap fun c => (List.range g.entriesPerCluster).map fun i => ⟨c, i⟩

/-- The entries of a directory: its slots before the terminator. -/
def Volume.entries (cs : List ℕ) : List EntryPtr := (slots g cs).takeWhile fun e => v.byte e 0 ≠ 0

/-- The entry that a component selects. -/
def Volume.lookup (cs : List ℕ) (name : List UInt8) : Option EntryPtr :=
  (v.entries g cs).find? fun e => nameIsEqual v e name

/-- The first cluster of a directory: 0 stands for the root. -/
def BPB.directory (c : ℕ) : ℕ := if c = 0 then g.rootCluster else c

/-- Resolution of the components of a path, from the directory at `c` on; the directory at a cluster
has the clusters `dirs` gives. The second part of the result says whether components are left. -/
def resolve (dirs : ℕ → List ℕ) : ℕ → List (List UInt8) → Option EntryPtr × Bool
  | _, [] => (none, false)
  | c, comp :: comps =>
    match v.lookup g (dirs (g.directory c)) comp with
    | none => (none, comps ≠ [])
    | some e =>
      if v.attr e = kDirectory ∧ comps ≠ [] then resolve dirs (v.firstCluster e) comps else (some e, comps ≠ [])

/-- A component of a path that fits the buffer. -/
structure IsComponent (comp : List UInt8) : Prop where
  ne_nil : comp ≠ []
  length_le : comp.length ≤ 12
  noSlash : slash ∉ comp

/-- The text of a path of these components, with or without a slash before and after them. -/
def pathText (leading trailing : Bool) (comps : List (List UInt8)) : List UInt8 :=
  (if leading then [slash] else []) ++ [slash].intercalate comps ++ if trailing then [slash] else []

/-- The directories that these components lead to, from the root and from others of them: their chains
end and lie in the data area. -/
structure LeadsTo (dirs : ℕ → List ℕ) (comps : List (List UInt8)) (ds : Set ℕ) : Prop where
  root : g.rootCluster ∈ ds
  chain : ∀ c ∈ ds, IsChain g v.fat c (dirs c)
  inData : ∀ c ∈ ds, ∀ x ∈ dirs c, g.InData x
  enters : ∀ c ∈ ds, ∀ comp ∈ comps, ∀ e, v.lookup g (dirs c) comp = some e → v.attr e = kDirectory →
    g.directory (v.firstCluster e) ∈ ds

variable {g v} {cs : List ℕ} {c first : ℕ} {name elem : List UInt8} {e : EntryPtr} {dirs : ℕ → List ℕ}
  {comps : List (List UInt8)} {ds : Set ℕ}

/-! ### One directory -/

theorem mem_slots : e ∈ slots g cs ↔ IsSlot g cs e := by
  simp only [slots, List.mem_flatMap, List.mem_map, List.mem_range]
  constructor
  · rintro ⟨c, hc, i, hi, rfl⟩
    exact ⟨hc, hi⟩
  · rintro ⟨hc, hi⟩
    exact ⟨_, hc, _, hi, rfl⟩

theorem slots_append (cs ds : List ℕ) : slots g (cs ++ ds) = slots g cs ++ slots g ds := List.flatMap_append

/-- The search in a list of slots: `some none` at the terminator, `none` behind the last. -/
def searchSlots (v : Volume) (elem : List UInt8) : List EntryPtr → Option (Option EntryPtr)
  | [] => none
  | e :: es =>
    if v.byte e 0 = 0 then some none else if nameIsEqual v e elem then some (some e) else searchSlots v elem es

theorem findInCluster_eq (i k : ℕ) :
    findInCluster v c elem k i = searchSlots v elem ((List.range' i k).map fun i => ⟨c, i⟩) := by
  induction k generalizing i with
  | zero => rfl
  | succ k ih => simp only [findInCluster, List.range'_succ, List.map_cons, searchSlots, ih]

theorem searchSlots_append (es fs : List EntryPtr) :
    searchSlots v elem (es ++ fs) = (searchSlots v elem es).or (searchSlots v elem fs) := by
  induction es with
  | nil => rfl
  | cons e es ih =>
    simp only [List.cons_append, searchSlots, ih]
    split
    next => rfl
    next =>
      split
      next => rfl
      next => rfl

theorem searchSlots_getD (es : List EntryPtr) : (searchSlots v elem es).getD none =
    (es.takeWhile fun e => v.byte e 0 ≠ 0).find? fun e => nameIsEqual v e elem := by
  induction es with
  | nil => rfl
  | cons e es ih =>
    rw [searchSlots, List.takeWhile_cons]
    by_cases hzero : v.byte e 0 = 0
    · simp [hzero]
    · by_cases heq : nameIsEqual v e elem = true
      · simp [hzero, heq]
      · simpa [hzero, heq] using ih

theorem nextCluster_eq (h : c < g.fatEntries) : nextCluster g v c = some ((next v.fat c).getD kEndOfClusterchain) := by
  rw [nextCluster, fatAt_eq h, Option.map_some, next]
  split <;> rfl

/-- Clusters that a loop over a directory can look into. -/
structure Clustered (g : BPB) (cs : List ℕ) : Prop where
  inData : ∀ x ∈ cs, g.InData x
  lt : ∀ x ∈ cs, x < g.fatEntries
  ne_end : ∀ x ∈ cs, x ≠ kEndOfClusterchain

theorem IsChain.clustered (hg : g.WellFormed) (h : IsChain g v.fat first cs) (hdata : ∀ x ∈ cs, g.InData x) :
    Clustered g cs where
  inData := hdata
  lt := fun x hx => (h.lt x hx).2
  ne_end := fun x hx => by
    have := (h.lt x hx).2
    have := hg.fatEntries_le
    rw [kEndOfClusterchain]
    omega

theorem Clustered.tail (h : Clustered g (c :: cs)) : Clustered g cs where
  inData := fun x hx => h.inData x (List.mem_cons_of_mem _ hx)
  lt := fun x hx => h.lt x (List.mem_cons_of_mem _ hx)
  ne_end := fun x hx => h.ne_end x (List.mem_cons_of_mem _ hx)

/-- A round of the loop over the clusters. -/
theorem findInDirectory_succ (h : Clustered g (c :: cs)) (fuel : ℕ) :
    findInDirectory g v elem (fuel + 1) c =
      match searchSlots v elem (slots g [c]) with
      | some found => some found
      | none => findInDirectory g v elem fuel ((next v.fat c).getD kEndOfClusterchain) := by
  rw [findInDirectory, if_neg (h.ne_end c List.mem_cons_self), if_pos (h.inData c List.mem_cons_self), findInCluster_eq,
    ← List.range_eq_range', slots, List.flatMap_singleton, nextCluster_eq (h.lt c List.mem_cons_self)]
  rfl

theorem findInDirectory_slots (h : Linked (next v.fat) c cs) (hcs : Clustered g cs) {fuel : ℕ}
    (hfuel : cs.length < fuel) :
    findInDirectory g v elem fuel c = some ((searchSlots v elem (slots g cs)).getD none) := by
  induction h generalizing fuel with
  | @last c hn =>
    obtain ⟨fuel, rfl⟩ := Nat.exists_eq_add_of_le' (show 2 ≤ fuel from hfuel)
    rw [findInDirectory_succ hcs, hn, Option.getD_none, findInDirectory, if_pos rfl]
    cases searchSlots v elem (slots g [c]) <;> rfl
  | @cons c d cs hs _ ih =>
    obtain ⟨fuel, rfl⟩ := Nat.exists_eq_add_of_le' (Nat.lt_of_le_of_lt (Nat.zero_le _) hfuel)
    rw [findInDirectory_succ hcs, hs, Option.getD_some, ih hcs.tail (by simpa using hfuel),
      show slots g (c :: cs) = slots g [c] ++ slots g cs from slots_append [c] cs, searchSlots_append]
    cases searchSlots v elem (slots g [c]) <;> rfl

/-- **The loops of `FindFile`** find the first entry of the directory that `NameIsEqual` accepts. -/
theorem findInDirectory_eq (hg : g.WellFormed) (h : IsChain g v.fat c cs) (hdata : ∀ x ∈ cs, g.InData x) :
    findInDirectory g v elem (g.fatEntries + 1) c = some (v.lookup g cs elem) := by
  rw [findInDirectory_slots h.linked (h.clustered hg hdata) (Nat.lt_succ_of_le h.length_le), searchSlots_getD]
  rfl

/-! ### The elements of a path -/

theorem ne_slash (h : slash ∉ elem) : ∀ x ∈ elem, decide (x ≠ slash) = true := fun x hx =>
  decide_eq_true fun he : x = slash => h (he ▸ hx)

/-- The last element of a path is all that is left. -/
theorem takeWhile_eq_self (h : slash ∉ elem) : elem.takeWhile (· ≠ slash) = elem ∧ elem.dropWhile (· ≠ slash) = [] :=
  ⟨List.takeWhile_eq_self_iff.mpr (ne_slash h), List.dropWhile_eq_nil_iff.mpr (ne_slash h)⟩

theorem takeWhile_noSlash (h : slash ∉ elem) (rest : List UInt8) :
    (elem ++ slash :: rest).takeWhile (· ≠ slash) = elem ∧ (elem ++ slash :: rest).dropWhile (· ≠ slash) =
    slash :: rest := by
  rw [List.takeWhile_append_of_pos (ne_slash h), List.dropWhile_append_of_pos (ne_slash h)]
  simp

theorem nextPathElement_slash (h : slash ∉ elem) (hlen : elem.length < pathElemSize) (rest : List UInt8) :
    nextPathElement (elem ++ slash :: rest) = some (elem, some rest, true) := by
  obtain ⟨htake, hdrop⟩ := takeWhile_noSlash h rest
  rw [nextPathElement, htake, hdrop, if_pos hlen]

theorem nextPathElement_last (h : slash ∉ elem) (hlen : elem.length < pathElemSize) :
    nextPathElement elem = some (elem, none, false) := by
  obtain ⟨htake, hdrop⟩ := takeWhile_eq_self h
  rw [nextPathElement, htake, hdrop, if_pos hlen]

/-- A call of `FindFile` whose element is not the last of the path. -/
theorem findFileWithin_slash {path rest : List UInt8} {d fuel : ℕ} {found : Option EntryPtr}
    (hstart : startDirectory g path c = (elem ++ slash :: rest, d)) (h : slash ∉ elem)
    (hlen : elem.length < pathElemSize) (hfind : findInDirectory g v elem (g.fatEntries + 1) d = some found) :
    findFileWithin g v (fuel + 1) path c =
      found.elim (some (none, true)) fun e =>
        if v.attr e = kDirectory ∧ rest ≠ [] then findFileWithin g v fuel rest (v.firstCluster e)
            else some (some e, true) := by
  rw [findFileWithin, hstart]
  simp only [nextPathElement_slash h hlen, Option.bind_eq_bind, Option.bind_some, hfind]
  cases found <;> rfl

/-- A call whose element is the last. -/
theorem findFileWithin_last {path : List UInt8} {d fuel : ℕ} {found : Option EntryPtr}
    (hstart : startDirectory g path c = (elem, d)) (h : slash ∉ elem) (hlen : elem.length < pathElemSize)
    (hfind : findInDirectory g v elem (g.fatEntries + 1) d = some found) :
    findFileWithin g v (fuel + 1) path c = some (found, false) := by
  rw [findFileWithin, hstart]
  simp only [nextPathElement_last h hlen, Option.bind_eq_bind, Option.bind_some, hfind]
  cases found <;> simp

/-! ### Paths -/

theorem startDirectory_of_noSlash {path : List UInt8} (h : path.head? ≠ some slash) :
    startDirectory g path c = (path, g.directory c) := by
  cases path with
  | nil => rfl
  | cons x path =>
    rw [startDirectory, if_neg (by simpa using h)]
    rfl

theorem LeadsTo.directory_eq (h : LeadsTo g v dirs comps ds) (hc : c ∈ ds) : g.directory c = c :=
  if_neg (h.chain c hc).first_ne_zero

theorem LeadsTo.tail {comp : List UInt8} (h : LeadsTo g v dirs (comp :: comps) ds) : LeadsTo g v dirs comps ds :=
  { h with enters := fun c hc comp hcomp => h.enters c hc comp (List.mem_cons_of_mem _ hcomp) }

theorem LeadsTo.findInDirectory_eq (h : LeadsTo g v dirs comps ds) (hg : g.WellFormed) (hc : c ∈ ds) :
    findInDirectory g v elem (g.fatEntries + 1) c = some (v.lookup g (dirs c) elem) :=
  Fat.findInDirectory_eq hg (h.chain c hc) (h.inData c hc)

theorem intercalate_cons_cons (comp comp' : List UInt8) (comps : List (List UInt8)) (rest : List UInt8) :
    [slash].intercalate (comp :: comp' :: comps) ++ rest =
    comp ++ slash :: ([slash].intercalate (comp' :: comps) ++ rest) := by
  simp [List.intercalate_cons_cons]

/-- The text of components that are left does not begin with a slash. -/
theorem head?_intercalate {comp : List UInt8} (h : IsComponent comp) (comps : List (List UInt8)) (rest : List UInt8) :
    ([slash].intercalate (comp :: comps) ++ rest).head? ≠ some slash ∧
    [slash].intercalate (comp :: comps) ++ rest ≠ [] := by
  obtain ⟨x, xs, rfl⟩ := List.exists_cons_of_ne_nil h.ne_nil
  have hx : x ≠ slash := fun he => h.noSlash (he ▸ List.mem_cons_self)
  cases comps with
  | nil => simpa [List.intercalate] using hx
  | cons comp' comps =>
    rw [intercalate_cons_cons]
    simpa using hx

theorem resolve_directory (h : LeadsTo g v dirs comps ds) (hc : g.directory c ∈ ds) (names : List (List UInt8)) :
    resolve g v dirs (g.directory c) names = resolve g v dirs c names := by
  cases names with
  | nil => rfl
  | cons name names => rw [resolve, resolve, h.directory_eq hc]

/-- `FindFile` from a directory on, called for the components that are left. -/
theorem findFileWithin_resolves (hg : g.WellFormed) (h : LeadsTo g v dirs comps ds)
    (hcomps : ∀ comp ∈ comps, IsComponent comp) (hne : comps ≠ []) (trailing : Bool) {path : List UInt8} {d fuel : ℕ}
    (hd : d ∈ ds)
    (hstart : startDirectory g path c = ([slash].intercalate comps ++ if trailing then [slash] else [], d))
    (hfuel : comps.length ≤ fuel) :
    findFileWithin g v fuel path c =
      some ((resolve g v dirs d comps).1, (resolve g v dirs d comps).2 || trailing) := by
  induction comps generalizing path c d fuel with
  | nil => exact absurd rfl hne
  | cons comp comps ih =>
    obtain ⟨fuel, rfl⟩ := Nat.exists_eq_add_of_le' (Nat.le_trans (Nat.le_add_left 1 _) hfuel)
    have hcomp := hcomps comp List.mem_cons_self
    have hlen : comp.length < pathElemSize := Nat.lt_succ_of_le hcomp.length_le
    have hfind : findInDirectory g v comp (g.fatEntries + 1) d = some (v.lookup g (dirs d) comp) :=
      h.findInDirectory_eq hg hd
    rw [resolve, h.directory_eq hd]
    cases comps with
    | nil =>
      rw [List.intercalate_singleton] at hstart
      cases trailing with
      | false =>
        rw [if_neg Bool.false_ne_true, List.append_nil] at hstart
        rw [findFileWithin_last hstart hcomp.noSlash hlen hfind]
        cases v.lookup g (dirs d) comp <;> simp
      | true =>
        rw [if_pos rfl] at hstart
        rw [findFileWithin_slash hstart hcomp.noSlash hlen hfind]
        cases v.lookup g (dirs d) comp <;> simp
    | cons comp' comps =>
      rw [intercalate_cons_cons] at hstart
      rw [findFileWithin_slash hstart hcomp.noSlash hlen hfind]
      cases hlook : v.lookup g (dirs d) comp with
      | none => simp
      | some e =>
        obtain ⟨hhead, hnil⟩ := head?_intercalate (hcomps comp' (by simp)) comps (if trailing then [slash] else [])
        by_cases hdir : v.attr e = kDirectory
        · have henter := h.enters d hd comp List.mem_cons_self e hlook hdir
          have hrest := ih h.tail (fun comp hmem => hcomps comp (List.mem_cons_of_mem _ hmem)) (by simp) henter
            (startDirectory_of_noSlash hhead) (by simpa using hfuel)
          rw [Option.elim_some, if_pos ⟨hdir, hnil⟩, hrest, resolve_directory h henter]
          simp [hdir]
        · simp [hdir]

theorem length_le_intercalate (h : ∀ comp ∈ comps, IsComponent comp) :
    comps.length ≤ ([slash].intercalate comps).length + 1 := by
  induction comps with
  | nil => exact Nat.zero_le _
  | cons comp comps ih =>
    have hpos := List.length_pos_of_ne_nil (h comp List.mem_cons_self).ne_nil
    have hrest := ih fun comp' hmem => h comp' (List.mem_cons_of_mem _ hmem)
    cases comps with
    | nil => simp
    | cons comp' comps =>
      rw [List.intercalate_cons_cons, List.length_append, List.length_append, List.length_cons]
      simp only [List.length_cons, List.length_nil] at *
      omega

/-- **`FindFile`** resolves a path of components that fit, from a directory, from the root, or with a slash before
them. -/
theorem findFile_resolves (hg : g.WellFormed) (h : LeadsTo g v dirs comps ds)
    (hcomps : ∀ comp ∈ comps, IsComponent comp) (hne : comps ≠ []) (leading trailing : Bool) (c : ℕ)
    (hc : leading ∨ g.directory c ∈ ds) :
    findFile g v (pathText leading trailing comps) c =
      some ((resolve g v dirs (if leading then 0 else c) comps).1,
          (resolve g v dirs (if leading then 0 else c) comps).2 || trailing) := by
  obtain ⟨comp, names, rfl⟩ := List.exists_cons_of_ne_nil hne
  have hlen : (comp :: names).length ≤ (pathText leading trailing (comp :: names)).length + 1 := by
    refine Nat.le_trans (length_le_intercalate hcomps) ?_
    rw [pathText, List.length_append, List.length_append]
    omega
  cases leading with
  | true =>
    have hstart : startDirectory g (pathText true trailing (comp :: names)) c =
        ([slash].intercalate (comp :: names) ++ if trailing then [slash] else [], g.rootCluster) := by
      rw [pathText, if_pos rfl, List.append_assoc]
      rfl
    rw [findFile, findFileWithin_resolves hg h hcomps hne trailing h.root hstart hlen, if_pos rfl]
    rw [← resolve_directory (c := 0) h h.root]
    rfl
  | false =>
    have hd := hc.resolve_left Bool.false_ne_true
    have hhead := (head?_intercalate (hcomps comp List.mem_cons_self) names (if trailing then [slash] else [])).1
    have hstart := startDirectory_of_noSlash (g := g) (c := c) hhead
    rw [pathText, if_neg Bool.false_ne_true, List.nil_append] at hlen ⊢
    rw [findFile, findFileWithin_resolves hg h hcomps hne trailing hd hstart hlen, if_neg Bool.false_ne_true,
      resolve_directory h hd]

/-- The bytes of an entry with a name of one letter. -/
def letterEntry (letter attr : UInt8) (cluster : UInt8) : List UInt8 :=
  letter :: List.replicate 10 blank ++ attr :: List.replicate 14 0 ++ [cluster, 0, 0, 0, 0, 0]

/-- A volume whose root directory has the files `X` and `Y` in its first cluster and the directory `A`
in its second; the file `B` is in `A`. -/
def treeVolume : Volume where
  fat := fun cluster => if cluster = 2 then 4 else if cluster = 3 ∨ cluster = 4 then kEndOfClusterchain else 0
  data := fun cluster o =>
    if cluster = 2 then (letterEntry 88 0 0 ++ letterEntry 89 0 0).getD o 0
    else if cluster = 4 then (letterEntry 65 kDirectory 3).getD o 0
    else if cluster = 3 then (letterEntry 66 0 0).getD o 0
    else 0

def treeDirs (c : ℕ) : List ℕ := if c = 2 then [2, 4] else [3]

theorem leadsTo_treeVolume : LeadsTo smallBPB treeVolume treeDirs [[97], [98]] {2, 3} where
  root := Or.inl rfl
  chain := by
    rintro c (rfl | rfl)
    · exact ⟨.cons (by decide) (.last (by decide)), by decide⟩
    · exact ⟨.last (by decide), by decide⟩
  inData := by
    rintro c (rfl | rfl) <;> decide
  enters := by
    have hroot : treeVolume.lookup smallBPB (treeDirs 2) [97] = some ⟨4, 0⟩ := by decide
    have hnone : treeVolume.lookup smallBPB (treeDirs 2) [98] = none := by decide
    have hsub : treeVolume.lookup smallBPB (treeDirs 3) [97] = none := by decide
    have hfile : treeVolume.lookup smallBPB (treeDirs 3) [98] = some ⟨3, 0⟩ := by decide
    rintro c (rfl | rfl) comp hcomp e hlook hdir
    · rcases List.mem_pair.mp hcomp with rfl | rfl
      · rw [hroot] at hlook
        cases hlook
        exact Or.inr (by decide)
      · rw [hnone] at hlook
        cases hlook
    · rcases List.mem_pair.mp hcomp with rfl | rfl
      · rw [hsub] at hlook
        cases hlook
      · rw [hfile] at hlook
        cases hlook
        exact absurd hdir (by decide)

/-- `/a/b/` is the file `B`, and a slash follows it. -/
theorem findFile_treeVolume : findFile smallBPB treeVolume [47, 97, 47, 98, 47] 0 = some (some ⟨3, 0⟩, true) :=
  (findFile_resolves wellFormed_smallBPB leadsTo_treeVolume
    (by rintro comp (_ | ⟨_, _ | ⟨_, ⟨⟩⟩⟩) <;> exact ⟨by decide, by decide, by decide⟩)
    (by decide) true true 0 (Or.inl rfl)).trans (by decide)

end DuvuvurKernel.Fat
