import DuvuvurKernel.Error
import DuvuvurKernel.Fat.Descriptor

/-!
# Directories

The functions of `fat.cpp` that look entries up by their paths, and those that make
new ones.

## The model

Paths and names are C strings without their terminators. An element of a path that
does not fit the buffer `path_elem` is undefined, and so is a look into a cluster
outside the data area. A directory is searched cluster by cluster; a chain that has
not ended after as many clusters as the FAT has entries never does.

A new entry takes the first slot of the directory that is free or deleted.
`CreateFile` sets its name and its size; every other field, the first cluster and the
attributes among them, is what the slot held before.
-/

namespace DuvuvurKernel.Fat

open Lib.Chains

variable (g : BPB) (v : Volume)

/-! ### Names -/

/-- `toupper`. -/
def toupper (c : UInt8) : UInt8 := if 97 ≤ c ∧ c ≤ 122 then c - 32 else c

/-- `'/'`. -/
def slash : UInt8 := 47

/-- `'.'`. -/
def dot : UInt8 := 46

/-- `' '`. -/
def blank : UInt8 := 32

/-- `strrchr`: what is before the last occurrence of a character, and what is behind it. -/
def strrchr (c : UInt8) : List UInt8 → Option (List UInt8 × List UInt8)
  | [] => none
  | x :: s =>
    match strrchr c s with
    | some (before, behind) => some (x :: before, behind)
    | none => if x = c then some ([], s) else none

/-- The loop of `NameIsEqual`, which fills `name83` from index `i83` on. -/
def fillName83 : List UInt8 → ℕ → List UInt8 → List UInt8
  | [], _, name83 => name83
  | c :: name, i83, name83 =>
    if i83 < 11 then
      if c = dot then fillName83 name (7 + 1) name83
      else fillName83 name (i83 + 1) (name83.set i83 (toupper c))
    else name83

/-- `NameIsEqual`. -/
def nameIsEqual (e : EntryPtr) (name : List UInt8) : Bool :=
  v.name e = fillName83 name 0 (List.replicate 11 blank)

/-- The first `n` bytes in upper case, filled up with blanks. -/
def padName (n : ℕ) (bytes : List UInt8) : List UInt8 :=
  (bytes.take n).map toupper ++ List.replicate (n - bytes.length) blank

/-- The name that `SetFileName` gives an entry. -/
def shortName (name : List UInt8) : List UInt8 :=
  match strrchr dot name with
  | some (base, ext) => padName 8 base ++ padName 3 ext
  | none => padName 8 name ++ padName 3 []

/-- `SetFileName`. -/
def setFileName (e : EntryPtr) (name : List UInt8) : Option Volume :=
  v.write g e.cluster (e.offset 0) (shortName name)

/-! ### Finding an entry -/

/-- The size of the buffer `path_elem`. -/
def pathElemSize : ℕ := 13

/-- `NextPathElement`: the first element, what is behind the slash after it, and whether there is
one. -/
def nextPathElement (path : List UInt8) : Option (List UInt8 × Option (List UInt8) × Bool) :=
  let elem := path.takeWhile (· ≠ slash)
  if elem.length < pathElemSize then
    match path.dropWhile (· ≠ slash) with
    | [] => some (elem, none, false)
    | _ :: nextPath => some (elem, some nextPath, true)
  else none

/-- The number of entries in a cluster. -/
def BPB.entriesPerCluster : ℕ := g.bytesPerCluster / entrySize

/-- The loop of `FindFile` over the last `k` entries of a cluster, from index `i` on: `some none` at the
end of the directory, `none` if the search goes on in the next cluster. -/
def findInCluster (cluster : ℕ) (elem : List UInt8) : ℕ → ℕ → Option (Option EntryPtr)
  | 0, _ => none
  | k + 1, i =>
    if v.byte ⟨cluster, i⟩ 0 = 0 then some none
    else if nameIsEqual v ⟨cluster, i⟩ elem then some (some ⟨cluster, i⟩)
    else findInCluster cluster elem k (i + 1)

/-- The loop of `FindFile` over the clusters of a directory. -/
def findInDirectory (elem : List UInt8) : ℕ → ℕ → Option (Option EntryPtr)
  | 0, _ => none
  | fuel + 1, cluster =>
    if cluster = kEndOfClusterchain then some none
    else if g.InData cluster then
      match findInCluster v cluster elem g.entriesPerCluster 0 with
      | some found => some found
      | none => do
        let cluster ← nextCluster g v cluster
        findInDirectory elem fuel cluster
    else none

/-- The first lines of `FindFile`: the path without a leading slash, and the directory to search. -/
def startDirectory (path : List UInt8) (directoryCluster : ℕ) : List UInt8 × ℕ :=
  match path with
  | c :: rest =>
    if c = slash then (rest, g.rootCluster)
    else (path, if directoryCluster = 0 then g.rootCluster else directoryCluster)
  | [] => (path, if directoryCluster = 0 then g.rootCluster else directoryCluster)

/-- `FindFile`, with as many calls of itself as `fuel` allows. Each call has a shorter path. -/
def findFileWithin : ℕ → List UInt8 → ℕ → Option (Option EntryPtr × Bool)
  | 0, _, _ => none
  | fuel + 1, path, directoryCluster => do
    let (path, directoryCluster) := startDirectory g path directoryCluster
    let (elem, nextPath, postSlash) ← nextPathElement path
    let pathLast := nextPath.getD [] = []
    match ← findInDirectory g v elem (g.fatEntries + 1) directoryCluster with
    | none => some (none, postSlash)
    | some e =>
      if v.attr e = kDirectory ∧ ¬ pathLast then findFileWithin fuel (nextPath.getD []) (v.firstCluster e)
      else some (some e, postSlash)

/-- `FindFile`: the entry, if there is one, and `post_slash`. -/
def findFile (path : List UInt8) (directoryCluster : ℕ) : Option (Option EntryPtr × Bool) :=
  findFileWithin g v (path.length + 1) path directoryCluster

/-! ### Making an entry -/

/-- A slot that `AllocateEntry` takes. -/
def Volume.isFreeSlot (e : EntryPtr) : Bool := v.byte e 0 = 0 ∨ v.byte e 0 = 0xe5

/-- The loop of `AllocateEntry`: the free slot, or the last cluster of the directory. -/
def searchSlot : ℕ → ℕ → Option (EntryPtr ⊕ ℕ)
  | 0, _ => none
  | fuel + 1, dirCluster =>
    if g.InData dirCluster then
      match (List.range g.entriesPerCluster).find? fun i => v.isFreeSlot ⟨dirCluster, i⟩ with
      | some i => some (.inl ⟨dirCluster, i⟩)
      | none => do
        let next ← nextCluster g v dirCluster
        if next = kEndOfClusterchain then some (.inr dirCluster) else searchSlot fuel next
    else none

/-- `AllocateEntry`. -/
def allocateEntry (dirCluster : ℕ) : Option (EntryPtr × Volume) := do
  match ← searchSlot g v g.fatEntries dirCluster with
  | .inl e => some (e, v)
  | .inr dirCluster => do
    let (dirCluster, v) ← extendCluster g v dirCluster 1
    let v ← v.write g dirCluster 0 (List.replicate g.bytesPerCluster 0)
    some (⟨dirCluster, 0⟩, v)

/-- The first part of `CreateFile`: the first cluster of the directory, and the name in it. -/
def parentDirectory (path : List UInt8) : Option (Except Error (ℕ × List UInt8)) :=
  match strrchr slash path with
  | none => some (.ok (g.rootCluster, path))
  | some (parentDirName, filename) =>
    if filename = [] then some (.error .isDirectory)
    else if parentDirName = [] then some (.ok (g.rootCluster, filename))
    else do
      match ← findFile g v parentDirName 0 with
      | (none, _) => some (.error .noSuchEntry)
      | (some parentDir, _) => some (.ok (v.firstCluster parentDir, filename))

/-- `CreateFile`. `AllocateEntry` never returns a null pointer. -/
def createFile (path : List UInt8) : Option (Except Error EntryPtr × Volume) := do
  match ← parentDirectory g v path with
  | .error err => some (.error err, v)
  | .ok (parentDirCluster, filename) => do
    let (dir, v) ← allocateEntry g v parentDirCluster
    let v ← setFileName g v dir filename
    let v ← v.setFileSize g dir 0
    some (.ok dir, v)

/-! ### What they do -/

variable {g v} {v' : Volume} {e : EntryPtr} {cs : List ℕ} {c first : ℕ}

theorem length_padName (n : ℕ) (bytes : List UInt8) : (padName n bytes).length = n := by
  simp only [padName, List.length_append, List.length_map, List.length_take, List.length_replicate]
  omega

theorem length_shortName (name : List UInt8) : (shortName name).length = 11 := by
  rw [shortName]
  split <;> rw [List.length_append, length_padName, length_padName]

/-- A slot of a directory with the clusters `cs`. -/
structure IsSlot (g : BPB) (cs : List ℕ) (e : EntryPtr) : Prop where
  mem : e.cluster ∈ cs
  lt : e.index < g.entriesPerCluster

theorem IsSlot.of_append_left {ns : List ℕ} (h : IsSlot g cs e) : IsSlot g (cs ++ ns) e :=
  ⟨List.mem_append_left _ h.mem, h.lt⟩

theorem IsSlot.offset_le (h : IsSlot g cs e) : e.offset entrySize ≤ g.bytesPerCluster := by
  have hlt := h.lt
  rw [BPB.entriesPerCluster, Nat.lt_iff_add_one_le, Nat.le_div_iff_mul_le (by decide)] at hlt
  rwa [EntryPtr.offset, Nat.mul_comm, ← Nat.succ_mul]

/-- What the loop of `AllocateEntry` finds. -/
theorem of_searchSlot {fuel j : ℕ} (h : IsChain g v.fat first cs) (hj : cs[j]? = some c) {r : EntryPtr ⊕ ℕ}
    (hs : searchSlot g v fuel c = some r) :
    (∃ e, r = .inl e ∧ IsSlot g cs e ∧ v.isFreeSlot e) ∨ ∃ c', r = .inr c' ∧ c' ∈ cs := by
  induction fuel generalizing c j with
  | zero => cases hs
  | succ fuel ih =>
    have hmem := List.mem_of_getElem? hj
    rw [searchSlot] at hs
    split at hs
    next =>
      split at hs
      next i hi =>
        cases hs
        have hlt := List.mem_range.mp (List.mem_of_find?_eq_some hi)
        have hfree := List.find?_some hi
        exact Or.inl ⟨_, rfl, ⟨hmem, hlt⟩, hfree⟩
      next =>
        obtain ⟨next, h1, h2⟩ := Option.bind_eq_some_iff.mp hs
        obtain ⟨hlt, rfl⟩ := List.getElem?_eq_some_iff.mp hj
        rw [nextCluster_getElem h hlt] at h1
        cases hc : cs[j + 1]? with
        | none =>
          rw [hc] at h1
          cases h1
          rw [Option.getD_none, if_pos rfl] at h2
          cases h2
          exact Or.inr ⟨_, rfl, hmem⟩
        | some c' =>
          rw [hc] at h1
          cases h1
          split at h2
          next =>
            cases h2
            exact Or.inr ⟨_, rfl, hmem⟩
          next => exact ih hc h2
    next => cases hs

/-- What `AllocateEntry` does: it takes a free slot of the directory, or the first slot of a cluster it
adds to it, whose bytes are all 0. -/
theorem of_allocateEntry (hg : g.WellFormed) (h : IsChain g v.fat first cs)
    (ha : allocateEntry g v first = some (e, v')) :
    (v' = v ∧ searchSlot g v g.fatEntries first = some (.inl e) ∧ IsSlot g cs e ∧ v.isFreeSlot e) ∨
    (Extends g first cs 1 v.fat v'.fat ∧ (free g v.fat).take 1 = [e.cluster] ∧ e.index = 0 ∧
      (∀ x, x ≠ e.cluster → v'.data x = v.data x) ∧ ∀ o < g.bytesPerCluster, v'.data e.cluster o = 0) := by
  have hj : cs[0]? = some first := h.linked.getElem?_zero
  obtain ⟨r, h1, h2⟩ := Option.bind_eq_some_iff.mp ha
  rcases of_searchSlot h hj h1 with ⟨e', rfl, h3, h4⟩ | ⟨c, rfl, h3⟩
  · cases h2
    exact Or.inl ⟨rfl, h1, h3, h4⟩
  · obtain ⟨⟨f, v₁⟩, h4, h2⟩ := Option.bind_eq_some_iff.mp h2
    obtain ⟨v₂, h5, h6⟩ := Option.bind_eq_some_iff.mp h2
    cases h6
    rcases Nat.lt_or_ge (free g v.fat).length 1 with hfull | hroom
    · rw [extendCluster_none h h3 hfull] at h4
      cases h4
    · obtain ⟨f', v₂', h7, h8, h9, h10⟩ := extendCluster_spec hg h h3 hroom
      rw [h7] at h4
      cases h4
      have htake : (free g v.fat).take 1 = [f] := by
        obtain ⟨f', fs, hf⟩ := List.exists_cons_of_length_pos hroom
        rw [hf] at h8 ⊢
        simpa using h8
      refine Or.inr ⟨fat_of_write h5 ▸ h9, htake, rfl, fun x hx => ?_, fun o ho => ?_⟩
      · rw [data_of_write_of_ne h5 hx, h10]
      · rw [(of_write h5).2]
        have hadd : overwrite (v₁.data f) 0 (List.replicate g.bytesPerCluster 0) (0 + o) = _ :=
          overwrite_add (by simpa using ho)
        simpa using hadd

end DuvuvurKernel.Fat
