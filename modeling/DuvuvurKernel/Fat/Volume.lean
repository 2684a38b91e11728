import DuvuvurKernel.Lib.Chains
import Mathlib.Data.Nat.Notation

/-!
# A FAT volume

`fat.hpp` and the accessors of `fat.cpp`: the file allocation table, the clusters and
the fields of a directory entry.

## The model

The image of the volume in memory is its FAT and its clusters, of
`bytes_per_cluster` bytes each. What the boot sector fixes is apart (`BPB`). Reading
or writing past the FAT, in a cluster outside the data area, or past the end of a
cluster is undefined (`none`): the source checks none of the three.

A `DirectoryEntry*` is the cluster it points into and its index there; its fields are
read from, and written to, the bytes of the cluster. So a cluster can be taken for a
directory whatever it holds, as in the source.
-/

namespace DuvuvurKernel.Fat

/-- What the boot sector fixes. -/
structure BPB where
  /-- `bytes_per_cluster`. -/
  bytesPerCluster : ℕ
  /-- `root_cluster`. -/
  rootCluster : ℕ
  /-- The number of entries of the FAT. -/
  fatEntries : ℕ
  /-- The first cluster number past the data area. -/
  endCluster : ℕ

/-- The part of the volume that changes. -/
structure Volume where
  /-- The FAT. -/
  fat : ℕ → ℕ
  /-- The bytes of each cluster. -/
  data : ℕ → ℕ → UInt8

/-! ### The FAT -/

/-- `kEndOfClusterchain`. -/
def kEndOfClusterchain : ℕ := 0x0fffffff

/-- `IsEndOfClusterchain`. -/
def isEndOfClusterchain (cluster : ℕ) : Bool := 0x0ffffff8 ≤ cluster

variable (g : BPB) (v : Volume)

/-- `fat[cluster]`. -/
def Volume.fatAt (cluster : ℕ) : Option ℕ :=
  if cluster < g.fatEntries then some (v.fat cluster) else none

/-- `fat[cluster] = value`. -/
def Volume.setFat (cluster value : ℕ) : Option Volume :=
  if cluster < g.fatEntries then some { v with fat := Function.update v.fat cluster value } else none

/-- `NextCluster`. -/
def nextCluster (cluster : ℕ) : Option ℕ :=
  (v.fatAt g cluster).map fun next => if isEndOfClusterchain next then kEndOfClusterchain else next

/-! ### The clusters -/

/-- The bytes `f`, with `bytes` in place of those from offset `o` on. -/
def overwrite (f : ℕ → UInt8) (o : ℕ) (bytes : List UInt8) : ℕ → UInt8 :=
  fun k => if k < o then f k else bytes[k - o]?.getD (f k)

/-- `GetSectorByCluster`: there is such a cluster. -/
def BPB.InData (cluster : ℕ) : Prop := 2 ≤ cluster ∧ cluster < g.endCluster

instance (cluster : ℕ) : Decidable (g.InData cluster) := inferInstanceAs (Decidable (_ ∧ _))

/-- `n` bytes of a cluster from offset `o` on. -/
def Volume.read (cluster o n : ℕ) : Option (List UInt8) :=
  if g.InData cluster ∧ o + n ≤ g.bytesPerCluster then
    some ((List.range n).map fun k => v.data cluster (o + k))
  else none

/-- `memcpy` to a cluster. -/
def Volume.write (cluster o : ℕ) (bytes : List UInt8) : Option Volume :=
  if g.InData cluster ∧ o + bytes.length ≤ g.bytesPerCluster then
    some { v with data := Function.update v.data cluster (overwrite (v.data cluster) o bytes) }
  else none

/-! ### Directory entries -/

/-- `sizeof(DirectoryEntry)`. -/
def entrySize : ℕ := 32

/-- A `DirectoryEntry*`. -/
structure EntryPtr where
  cluster : ℕ
  index : ℕ
  deriving DecidableEq, Repr

/-- `Attribute::kDirectory`. -/
def kDirectory : UInt8 := 0x10

/-- `Attribute::kLongName`. -/
def kLongName : UInt8 := 0x0f

/-- The offset of a field of an entry in its cluster. -/
def EntryPtr.offset (e : EntryPtr) (field : ℕ) : ℕ := entrySize * e.index + field

/-- A byte of an entry. -/
def Volume.byte (e : EntryPtr) (field : ℕ) : UInt8 := v.data e.cluster (e.offset field)

/-- A `uint16_t` field. -/
def Volume.word (e : EntryPtr) (field : ℕ) : ℕ :=
  (v.byte e field).toNat + 256 * (v.byte e (field + 1)).toNat

/-- `name`. -/
def Volume.name (e : EntryPtr) : List UInt8 := (List.range 11).map fun k => v.byte e k

/-- `attr`. -/
def Volume.attr (e : EntryPtr) : UInt8 := v.byte e 11

/-- `FirstCluster`, of `first_cluster_low` and `first_cluster_high`. -/
def Volume.firstCluster (e : EntryPtr) : ℕ := v.word e 26 + 65536 * v.word e 20

/-- `file_size`. -/
def Volume.fileSize (e : EntryPtr) : ℕ := v.word e 28 + 65536 * v.word e 30

/-- The bytes of a `uint16_t`. -/
def wordBytes (x : ℕ) : List UInt8 := [UInt8.ofNat x, UInt8.ofNat (x / 256)]

@[simp] theorem length_wordBytes (x : ℕ) : (wordBytes x).length = 2 := rfl

/-- The assignments to `first_cluster_low` and `first_cluster_high`. -/
def Volume.setFirstCluster (e : EntryPtr) (cluster : ℕ) : Option Volume := do
  let v ← v.write g e.cluster (e.offset 26) (wordBytes cluster)
  v.write g e.cluster (e.offset 20) (wordBytes (cluster / 65536))

/-- The assignment to `file_size`. -/
def Volume.setFileSize (e : EntryPtr) (size : ℕ) : Option Volume :=
  v.write g e.cluster (e.offset 28) (wordBytes size ++ wordBytes (size / 65536))

/-! ### What the accessors do -/

variable {g v} {cluster o : ℕ} {bytes : List UInt8} {v' : Volume} {e : EntryPtr}

theorem overwrite_of_lt {f : ℕ → UInt8} {k : ℕ} (h : k < o) : overwrite f o bytes k = f k := by
  simp [overwrite, h]

theorem overwrite_of_ge {f : ℕ → UInt8} {k : ℕ} (h : o + bytes.length ≤ k) : overwrite f o bytes k = f k := by
  rw [overwrite, if_neg (by omega), List.getElem?_eq_none (by omega), Option.getD_none]

theorem overwrite_add {f : ℕ → UInt8} {k : ℕ} (h : k < bytes.length) : overwrite f o bytes (o + k) = bytes[k] := by
  rw [overwrite, if_neg (by omega), Nat.add_sub_cancel_left, List.getElem?_eq_getElem h, Option.getD_some]

theorem fatAt_eq (h : cluster < g.fatEntries) : v.fatAt g cluster = some (v.fat cluster) := if_pos h

theorem write_eq (hc : g.InData cluster) (ho : o + bytes.length ≤ g.bytesPerCluster) :
    v.write g cluster o bytes =
      some { v with data := Function.update v.data cluster (overwrite (v.data cluster) o bytes) } :=
  if_pos ⟨hc, ho⟩

theorem read_eq {n : ℕ} (hc : g.InData cluster) (ho : o + n ≤ g.bytesPerCluster) :
    v.read g cluster o n = some ((List.range n).map fun k => v.data cluster (o + k)) :=
  if_pos ⟨hc, ho⟩

/-- What a write has done. -/
theorem of_write (h : v.write g cluster o bytes = some v') :
    (g.InData cluster ∧ o + bytes.length ≤ g.bytesPerCluster) ∧
      v' = { v with data := Function.update v.data cluster (overwrite (v.data cluster) o bytes) } := by
  rw [Volume.write] at h
  split at h
  next hb => exact ⟨hb, (Option.some.inj h).symm⟩
  next => cases h

theorem fat_of_write (h : v.write g cluster o bytes = some v') : v'.fat = v.fat := by
  rw [(of_write h).2]

theorem data_of_write_of_ne (h : v.write g cluster o bytes = some v') {c : ℕ} (hc : c ≠ cluster) :
    v'.data c = v.data c := by
  rw [(of_write h).2]
  exact Function.update_of_ne hc _ _

/-- Between two volumes, only bytes of one entry differ. -/
structure OnlyEntry (e : EntryPtr) (v v' : Volume) : Prop where
  fat : v'.fat = v.fat
  data : ∀ c o, c ≠ e.cluster ∨ o < e.offset 0 ∨ e.offset entrySize ≤ o → v'.data c o = v.data c o

theorem OnlyEntry.trans {v'' : Volume} (h : OnlyEntry e v v') (h' : OnlyEntry e v' v'') : OnlyEntry e v v'' where
  fat := h'.fat.trans h.fat
  data := fun c o hco => (h'.data c o hco).trans (h.data c o hco)

/-- The bytes of an entry are no bytes of another. -/
theorem EntryPtr.apart {e' : EntryPtr} (he : e' ≠ e) {k : ℕ} (hk : k < entrySize) :
    e'.cluster ≠ e.cluster ∨ e'.offset k < e.offset 0 ∨ e.offset entrySize ≤ e'.offset k := by
  by_cases hc : e'.cluster = e.cluster
  · have hi : e'.index ≠ e.index := fun hi => he (by cases e; cases e'; simp_all)
    simp only [EntryPtr.offset, entrySize] at *
    omega
  · exact Or.inl hc

theorem OnlyEntry.byte_of_ne (h : OnlyEntry e v v') {e' : EntryPtr} (he : e' ≠ e) {k : ℕ} (hk : k < entrySize) :
    v'.byte e' k = v.byte e' k :=
  h.data _ _ (EntryPtr.apart he hk)

theorem OnlyEntry.of_write {field : ℕ} (h : v.write g e.cluster (e.offset field) bytes = some v')
    (hb : field + bytes.length ≤ entrySize) : OnlyEntry e v v' where
  fat := fat_of_write h
  data := fun c o hco => by
    rw [(Fat.of_write h).2]
    by_cases hc : c = e.cluster
    · subst hc
      simp only [Function.update_self]
      rcases hco with hco | hco | hco
      · exact absurd rfl hco
      · exact overwrite_of_lt (Nat.lt_of_lt_of_le hco (Nat.add_le_add_left (Nat.zero_le _) _))
      · refine overwrite_of_ge (Nat.le_trans ?_ hco)
        rw [EntryPtr.offset, EntryPtr.offset, Nat.add_assoc]
        exact Nat.add_le_add_left hb _
    · simp only [Function.update_of_ne hc]

/-- A write to a field of an entry leaves the fields around it alone. -/
theorem byte_of_write_of_outside {field k : ℕ} (h : v.write g e.cluster (e.offset field) bytes = some v')
    (hk : k < field ∨ field + bytes.length ≤ k) : v'.byte e k = v.byte e k := by
  rw [(of_write h).2]
  simp only [Volume.byte, Function.update_self]
  rcases hk with hk | hk
  · exact overwrite_of_lt (Nat.add_lt_add_left hk _)
  · refine overwrite_of_ge ?_
    rw [EntryPtr.offset, EntryPtr.offset, Nat.add_assoc]
    exact Nat.add_le_add_left hk _

theorem byte_of_write {field k : ℕ} (h : v.write g e.cluster (e.offset field) bytes = some v')
    (hk : k < bytes.length) : v'.byte e (field + k) = bytes[k] := by
  rw [(of_write h).2]
  simp only [Volume.byte, Function.update_self]
  rw [show e.offset (field + k) = e.offset field + k from (Nat.add_assoc _ _ _).symm]
  exact overwrite_add hk

theorem word_congr {field : ℕ} (h : v'.byte e field = v.byte e field)
    (h' : v'.byte e (field + 1) = v.byte e (field + 1)) : v'.word e field = v.word e field := by
  rw [Volume.word, Volume.word, h, h']

/-- A word field, after its bytes have been written. -/
theorem word_of_bytes {field x : ℕ} (h : v.byte e field = UInt8.ofNat x)
    (h' : v.byte e (field + 1) = UInt8.ofNat (x / 256)) : v.word e field = x % 65536 := by
  rw [Volume.word, h, h']
  simp only [UInt8.toNat_ofNat']
  omega

/-- What the assignment of a first cluster has done. -/
theorem of_setFirstCluster (h : v.setFirstCluster g e cluster = some v') :
    OnlyEntry e v v' ∧ v'.firstCluster e = cluster % 2 ^ 32 ∧
      ∀ k, k ∉ [20, 21, 26, 27] → v'.byte e k = v.byte e k := by
  obtain ⟨v₁, h1, h2⟩ := Option.bind_eq_some_iff.mp h
  refine ⟨(OnlyEntry.of_write h1 (by simp [entrySize])).trans (OnlyEntry.of_write h2 (by simp [entrySize])), ?_,
    fun k hk => ?_⟩
  · have hlow : v'.word e 26 = cluster % 65536 := by
      rw [word_congr (byte_of_write_of_outside h2 (by simp)) (byte_of_write_of_outside h2 (by simp))]
      exact word_of_bytes (byte_of_write h1 (k := 0) (by simp)) (byte_of_write h1 (k := 1) (by simp))
    have hhigh : v'.word e 20 = cluster / 65536 % 65536 :=
      word_of_bytes (byte_of_write h2 (k := 0) (by simp)) (byte_of_write h2 (k := 1) (by simp))
    rw [Volume.firstCluster, hlow, hhigh]
    omega
  · simp only [List.mem_cons, List.not_mem_nil, not_or] at hk
    rw [byte_of_write_of_outside h2 (by simp only [length_wordBytes]; omega),
      byte_of_write_of_outside h1 (by simp only [length_wordBytes]; omega)]

/-- What the assignment of a file size has done. -/
theorem of_setFileSize {size : ℕ} (h : v.setFileSize g e size = some v') :
    OnlyEntry e v v' ∧ v'.fileSize e = size % 2 ^ 32 ∧ ∀ k < 28, v'.byte e k = v.byte e k := by
  refine ⟨OnlyEntry.of_write h (by simp [entrySize]), ?_, fun k hk => byte_of_write_of_outside h (Or.inl hk)⟩
  have hlow : v'.word e 28 = size % 65536 :=
    word_of_bytes (byte_of_write h (k := 0) (by simp)) (byte_of_write h (k := 1) (by simp))
  have hhigh : v'.word e 30 = size / 65536 % 65536 :=
    word_of_bytes (byte_of_write h (k := 2) (by simp)) (byte_of_write h (k := 3) (by simp))
  rw [Volume.fileSize, hlow, hhigh]
  omega

/-- An entry lies in a cluster of the data area. -/
def EntryPtr.InCluster (g : BPB) (e : EntryPtr) : Prop :=
  g.InData e.cluster ∧ e.offset entrySize ≤ g.bytesPerCluster

theorem write_entry_eq {field : ℕ} (he : e.InCluster g) (hb : field + bytes.length ≤ entrySize) :
    ∃ v', v.write g e.cluster (e.offset field) bytes = some v' := by
  refine ⟨_, write_eq he.1 (Nat.le_trans ?_ he.2)⟩
  rw [EntryPtr.offset, EntryPtr.offset, Nat.add_assoc]
  exact Nat.add_le_add_left hb _

theorem setFirstCluster_eq (he : e.InCluster g) : ∃ v', v.setFirstCluster g e cluster = some v' := by
  have hlow : 26 + (wordBytes cluster).length ≤ entrySize := by simp [entrySize]
  have hhigh : 20 + (wordBytes (cluster / 65536)).length ≤ entrySize := by simp [entrySize]
  obtain ⟨v₁, h1⟩ := write_entry_eq (v := v) he hlow
  obtain ⟨v₂, h2⟩ := write_entry_eq (v := v₁) he hhigh
  exact ⟨v₂, by rw [Volume.setFirstCluster, h1]; exact h2⟩

theorem setFileSize_eq {size : ℕ} (he : e.InCluster g) : ∃ v', v.setFileSize g e size = some v' :=
  write_entry_eq he (by simp [entrySize])

end DuvuvurKernel.Fat
