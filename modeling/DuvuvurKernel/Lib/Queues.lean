import Mathlib.Data.List.Nodup
import Mathlib.Logic.Function.Basic

/-!
# Families of queues

A family of first-in first-out queues `q i`, one for each `i`, in which every
element stands in at most one queue and at most once. Where each element stands
is said by a function `place`, and `Placed q place` says that the queues are what
`place` says. The operations on one queue (join at the back, join at the front,
leave from the front, leave from anywhere, go round) keep `Placed`, with `place`
changed at the one element that moves.
-/

namespace Lib.Queues

variable {ι α : Type*}

/-- No queue holds an element twice, and an element is in the queue `place` names
and in no other. -/
structure Placed (q : ι → List α) (place : α → Option ι) : Prop where
  /-- No queue holds an element twice. -/
  nodup : ∀ i, (q i).Nodup
  /-- An element is where `place` says. -/
  mem_iff : ∀ i a, a ∈ q i ↔ place a = some i

namespace Placed

variable {q : ι → List α} {place : α → Option ι}

theorem place_of_cons (h : Placed q place) {i : ι} {a : α} {l : List α} (hq : q i = a :: l) :
    place a = some i :=
  (h.mem_iff i a).mp (by rw [hq]; exact List.mem_cons_self ..)

/-- The queues do not depend on how `place` is written. -/
theorem congr_place {place' : α → Option ι} (h : Placed q place) (he : ∀ a, place' a = place a) :
    Placed q place' :=
  ⟨h.nodup, fun i a => by rw [he]; exact h.mem_iff i a⟩

variable [DecidableEq α]

/-- How often an element stands in a queue. -/
theorem count_eq [DecidableEq ι] (h : Placed q place) (i : ι) (a : α) :
    (q i).count a = if place a = some i then 1 else 0 := by
  split_ifs with hp
  · exact List.count_eq_one_of_mem (h.nodup i) ((h.mem_iff i a).mpr hp)
  · exact List.count_eq_zero_of_not_mem fun hm => hp ((h.mem_iff i a).mp hm)

variable [DecidableEq ι]

/-- An element that stands nowhere joins queue `i` anywhere: at the back, at the front. -/
theorem insert (h : Placed q place) {a : α} (ha : place a = none) (i : ι) {l : List α}
    (hl : l.Perm (a :: q i)) :
    Placed (Function.update q i l) (Function.update place a (some i)) := by
  have hnot : a ∉ q i := fun hm => by rw [h.mem_iff, ha] at hm; cases hm
  refine ⟨fun j => ?_, fun j b => ?_⟩
  · by_cases hj : j = i
    · subst hj
      rw [Function.update_self, hl.nodup_iff, List.nodup_cons]
      exact ⟨hnot, h.nodup j⟩
    · rw [Function.update_of_ne hj]
      exact h.nodup j
  · by_cases hj : j = i
    · subst hj
      rw [Function.update_self, hl.mem_iff, List.mem_cons]
      by_cases hb : b = a
      · subst hb; simp
      · rw [Function.update_of_ne hb, ← h.mem_iff]; simp [hb]
    · rw [Function.update_of_ne hj]
      by_cases hb : b = a
      · subst hb
        rw [Function.update_self, h.mem_iff, ha]
        simpa using fun h => hj h.symm
      · rw [Function.update_of_ne hb]
        exact h.mem_iff j b

theorem pushBack (h : Placed q place) {a : α} (ha : place a = none) (i : ι) :
    Placed (Function.update q i (q i ++ [a])) (Function.update place a (some i)) :=
  h.insert ha i (List.perm_append_singleton a (q i))

theorem pushFront (h : Placed q place) {a : α} (ha : place a = none) (i : ι) :
    Placed (Function.update q i (a :: q i)) (Function.update place a (some i)) :=
  h.insert ha i (List.Perm.refl _)

/-- An element leaves queue `i`, which keeps its other elements in any order. -/
theorem remove (h : Placed q place) {a : α} {i : ι} {l : List α} (hl : (q i).Perm (a :: l)) :
    Placed (Function.update q i l) (Function.update place a none) := by
  have hnd : (a :: l).Nodup := hl.nodup_iff.mp (h.nodup i)
  have hpl : place a = some i := (h.mem_iff i a).mp (hl.mem_iff.mpr (List.mem_cons_self ..))
  rw [List.nodup_cons] at hnd
  refine ⟨fun j => ?_, fun j b => ?_⟩
  · by_cases hj : j = i
    · subst hj
      rw [Function.update_self]
      exact hnd.2
    · rw [Function.update_of_ne hj]
      exact h.nodup j
  · by_cases hb : b = a
    · subst hb
      rw [Function.update_self]
      by_cases hj : j = i
      · subst hj; rw [Function.update_self]; simpa using hnd.1
      · rw [Function.update_of_ne hj, h.mem_iff, hpl]
        simpa using fun h => hj h.symm
    · rw [Function.update_of_ne hb, ← h.mem_iff]
      by_cases hj : j = i
      · subst hj; rw [Function.update_self, hl.mem_iff, List.mem_cons]; simp [hb]
      · rw [Function.update_of_ne hj]

/-- The element at the front leaves. -/
theorem popFront (h : Placed q place) {a : α} {i : ι} {l : List α} (hq : q i = a :: l) :
    Placed (Function.update q i l) (Function.update place a none) :=
  h.remove (by rw [hq])

/-- An element leaves from wherever it stands. -/
theorem erase (h : Placed q place) {a : α} {i : ι} (ha : place a = some i) :
    Placed (Function.update q i ((q i).filter (· != a))) (Function.update place a none) := by
  have hm : a ∈ q i := (h.mem_iff i a).mpr ha
  rw [← (h.nodup i).erase_eq_filter]
  exact h.remove (List.perm_cons_erase hm)

/-- The element at the front goes to the back. -/
theorem rotate (h : Placed q place) {a : α} {i : ι} {l : List α} (hq : q i = a :: l) :
    Placed (Function.update q i (l ++ [a])) place := by
  have hp := h.place_of_cons hq
  have h' := (h.popFront hq).pushBack (a := a) (by simp) i
  rw [Function.update_self, Function.update_idem, Function.update_idem] at h'
  exact h'.congr_place fun b => by
    by_cases hb : b = a
    · subst hb; simpa using hp
    · rw [Function.update_of_ne hb]

end Placed

/-- The front of a queue stays in front when another element leaves. -/
theorem head?_filter_ne [DecidableEq α] {l : List α} {a b : α} (hb : l.head? = some b) (hne : b ≠ a) :
    (l.filter (· != a)).head? = some b := by
  cases l with
  | nil => simp at hb
  | cons c l =>
    simp only [List.head?_cons, Option.some.injEq] at hb
    subst hb
    simp [hne]

end Lib.Queues
