import Mathlib.Data.List.Basic
import Mathlib.Tactic

/-!
# A map in an array

`usb/arraymap.hpp`: a map of a fixed number of entries, which are free or hold a key with its value.

`Put` takes the first free entry, whether or not the key has one already, and does nothing if there is none.
`Get` and `Delete` look at the first entry of the key. So a key can have several entries, of which
`Delete` frees one, and after `Put` a key may have none (`has_put`).
-/

namespace DuvuvurKernel.Usb

/-- `ArrayMap`. -/
structure ArrayMap (K V : Type*) (N : ℕ) where
  /-- `table_`. -/
  table : List (Option K × V)
  size : table.length = N

namespace ArrayMap

variable {K V : Type*} {N : ℕ}

/-- An array of free entries. -/
def empty (default : V) : ArrayMap K V N where
  table := List.replicate N (none, default)
  size := List.length_replicate

/-- `Get`. -/
def get [DecidableEq K] (m : ArrayMap K V N) (key : K) : Option V :=
  (m.table.find? fun e => e.1 = some key).map Prod.snd

/-- The loop of `Put`. -/
def putIn (key : K) (value : V) : List (Option K × V) → List (Option K × V)
  | [] => []
  | e :: t => if e.1 = none then (some key, value) :: t else e :: putIn key value t

/-- The loop of `Delete`. -/
def deleteIn [DecidableEq K] (key : K) : List (Option K × V) → List (Option K × V)
  | [] => []
  | e :: t => if e.1 = some key then (none, e.2) :: t else e :: deleteIn key t

theorem length_putIn (key : K) (value : V) (t : List (Option K × V)) : (putIn key value t).length = t.length := by
  induction t with
  | nil => rfl
  | cons e t ih =>
    rw [putIn]
    split
    · rfl
    · rw [List.length_cons, List.length_cons, ih]

theorem length_deleteIn [DecidableEq K] (key : K) (t : List (Option K × V)) : (deleteIn key t).length = t.length := by
  induction t with
  | nil => rfl
  | cons e t ih =>
    rw [deleteIn]
    split
    · rfl
    · rw [List.length_cons, List.length_cons, ih]

/-- `Put`. -/
def put (m : ArrayMap K V N) (key : K) (value : V) : ArrayMap K V N where
  table := putIn key value m.table
  size := (length_putIn key value m.table).trans m.size

/-- `Delete`. -/
def delete [DecidableEq K] (m : ArrayMap K V N) (key : K) : ArrayMap K V N where
  table := deleteIn key m.table
  size := (length_deleteIn key m.table).trans m.size

/-- A key has an entry. -/
def Has (m : ArrayMap K V N) (key : K) : Prop := ∃ e ∈ m.table, e.1 = some key

/-- An entry is free. -/
def HasFree (m : ArrayMap K V N) : Prop := ∃ e ∈ m.table, e.1 = none

instance [DecidableEq K] (m : ArrayMap K V N) (key : K) : Decidable (m.Has key) :=
  inferInstanceAs (Decidable (∃ e ∈ m.table, _))

instance (m : ArrayMap K V N) : Decidable m.HasFree := inferInstanceAs (Decidable (∃ e ∈ m.table, _))

variable {m : ArrayMap K V N} {key key' : K} {value : V} {e : Option K × V}

/-- Where what `Get` finds comes from. -/
theorem of_get [DecidableEq K] (h : m.get key = some value) : (some key, value) ∈ m.table := by
  obtain ⟨⟨k, x⟩, hfind, rfl⟩ := Option.map_eq_some_iff.mp h
  have hkey : k = some key := by simpa using List.find?_some hfind
  exact hkey ▸ List.mem_of_find?_eq_some hfind

theorem get_eq_none_iff [DecidableEq K] : m.get key = none ↔ ¬ m.Has key := by
  rw [get, Option.map_eq_none_iff, List.find?_eq_none]
  constructor
  · rintro hnone ⟨e, he, hkey⟩
    exact hnone e he (decide_eq_true hkey)
  · intro hnot e he hkey
    exact hnot ⟨e, he, of_decide_eq_true hkey⟩

/-! ### The loops -/

theorem mem_put (h : e ∈ (m.put key value).table) : e ∈ m.table ∨ e = (some key, value) := by
  obtain ⟨t, hsize⟩ := m
  change e ∈ putIn key value t at h
  change e ∈ t ∨ _
  clear hsize
  induction t with
  | nil => exact .inl h
  | cons e' t ih =>
    rw [putIn] at h
    split at h
    · rcases List.mem_cons.mp h with rfl | h
      · exact .inr rfl
      · exact .inl (List.mem_cons_of_mem _ h)
    · rcases List.mem_cons.mp h with rfl | h
      · exact .inl List.mem_cons_self
      · exact (ih h).imp_left (List.mem_cons_of_mem _)

theorem mem_delete [DecidableEq K] (h : e ∈ (m.delete key).table) : e ∈ m.table ∨ e.1 = none := by
  obtain ⟨t, hsize⟩ := m
  change e ∈ deleteIn key t at h
  change e ∈ t ∨ _
  clear hsize
  induction t with
  | nil => exact .inl h
  | cons e' t ih =>
    rw [deleteIn] at h
    split at h
    · rcases List.mem_cons.mp h with rfl | h
      · exact .inr rfl
      · exact .inl (List.mem_cons_of_mem _ h)
    · rcases List.mem_cons.mp h with rfl | h
      · exact .inl List.mem_cons_self
      · exact (ih h).imp_left (List.mem_cons_of_mem _)

/-- **`Put`** gives the key an entry if one is free, and takes none away. -/
theorem has_put : (m.put key value).Has key' ↔ m.Has key' ∨ key' = key ∧ m.HasFree := by
  obtain ⟨t, hsize⟩ := m
  change (∃ e ∈ putIn key value t, e.1 = some key') ↔ (∃ e ∈ t, e.1 = some key') ∨ key' = key ∧ ∃ e ∈ t, e.1 = none
  clear hsize
  induction t with
  | nil => simp [putIn]
  | cons e t ih =>
    rw [putIn]
    split
    next hfree => simp [hfree, or_comm, eq_comm]
    next hfree => simp [hfree, ih, or_assoc]

/-- **`Delete`** leaves the other keys alone. -/
theorem has_delete_of_ne [DecidableEq K] (hne : key' ≠ key) : (m.delete key).Has key' ↔ m.Has key' := by
  obtain ⟨t, hsize⟩ := m
  change (∃ e ∈ deleteIn key t, e.1 = some key') ↔ ∃ e ∈ t, e.1 = some key'
  clear hsize
  induction t with
  | nil => rfl
  | cons e t ih =>
    rw [deleteIn]
    split
    next hkey => simp [hkey, hne.symm]
    next => simp [ih]

end ArrayMap

end DuvuvurKernel.Usb
