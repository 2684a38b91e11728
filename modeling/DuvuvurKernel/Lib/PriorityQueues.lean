import Mathlib.Data.Multiset.Filter
import Mathlib.Data.Multiset.Sort
import Mathlib.Order.Basic

/-!
# Priority queues

A priority queue gives back the items put into it, one before which no other comes
first. Which one that is among several is left to the queue. `PriorityQueue` says what
an implementation keeps to, in terms of the multiset of its items; sorted lists are one
(`sortedLists`).
-/

namespace Lib.PriorityQueues

/-- A priority queue, in which `b` comes before `a` if `less a b`. -/
structure PriorityQueue (α : Type) (less : α → α → Prop) where
  /-- The states of the queue. -/
  Queue : Type
  /-- What is in the queue. -/
  items : Queue → Multiset α
  /-- The empty queue. -/
  empty : Queue
  push : Queue → α → Queue
  /-- The item that comes first. -/
  top : Queue → Option α
  /-- The queue without its first item. -/
  pop : Queue → Queue
  items_empty : items empty = 0
  items_push : ∀ q a, items (push q a) = a ::ₘ items q
  items_top : ∀ q a, top q = some a → items q = a ::ₘ items (pop q)
  top_first : ∀ q a, top q = some a → ∀ b ∈ items q, ¬ less a b
  top_none : ∀ q, top q = none → items q = 0

variable {α : Type}

/-- A queue with something in it has a first item. -/
theorem PriorityQueue.exists_top {less : α → α → Prop} (P : PriorityQueue α less) {q : P.Queue} {b : α}
    (hb : b ∈ P.items q) : ∃ a, P.top q = some a := by
  cases h : P.top q with
  | some a => exact ⟨a, rfl⟩
  | none =>
    rw [P.top_none q h] at hb
    exact absurd hb (Multiset.notMem_zero b)

/-! ### Sorted lists -/

/-- An item put into a list after all that come before it or at the same time. -/
def insertSorted (key : α → ℕ) (a : α) : List α → List α
  | [] => [a]
  | b :: l => if key b ≤ key a then b :: insertSorted key a l else a :: b :: l

variable {key : α → ℕ} {a : α} {l : List α}

theorem coe_insertSorted : (insertSorted key a l : Multiset α) = a ::ₘ l := by
  induction l with
  | nil => rfl
  | cons b l ih =>
    unfold insertSorted
    split
    · rw [← Multiset.cons_coe, ih, ← Multiset.cons_coe, Multiset.cons_swap]
    · rfl

theorem insertSorted_pairwise (h : l.Pairwise fun a b => key a ≤ key b) :
    (insertSorted key a l).Pairwise fun a b => key a ≤ key b := by
  induction l with
  | nil => exact List.pairwise_singleton _ a
  | cons b l ih =>
    obtain ⟨hb, hl⟩ := List.pairwise_cons.mp h
    unfold insertSorted
    split
    next hle =>
      refine List.pairwise_cons.mpr ⟨fun c hc => ?_, ih hl⟩
      have hcoe : (insertSorted key a l : Multiset α) = a ::ₘ l := coe_insertSorted
      have hmem : c ∈ a ::ₘ (l : Multiset α) := by
        rw [← hcoe]
        exact hc
      rcases Multiset.mem_cons.mp hmem with rfl | hc
      · exact hle
      · exact hb c hc
    next hlt =>
      refine List.pairwise_cons.mpr ⟨fun c hc => ?_, h⟩
      rcases List.mem_cons.mp hc with rfl | hc
      · omega
      · have := hb c hc
        omega

/-- Lists sorted by a key are a priority queue for the smallest key. -/
def sortedLists (key : α → ℕ) : PriorityQueue α fun a b => key b < key a where
  Queue := { l : List α // l.Pairwise fun a b => key a ≤ key b }
  items q := q.1
  empty := ⟨[], List.Pairwise.nil⟩
  push q a := ⟨insertSorted key a q.1, insertSorted_pairwise q.2⟩
  top q := q.1.head?
  pop q := ⟨q.1.tail, q.2.tail⟩
  items_empty := rfl
  items_push := fun _ _ => coe_insertSorted
  items_top := by
    rintro ⟨l, hl⟩ a h
    cases l with
    | nil => cases h
    | cons b l =>
      cases h
      rfl
  top_first := by
    rintro ⟨l, hl⟩ a h b hb
    cases l with
    | nil => cases h
    | cons c l =>
      cases h
      rcases List.mem_cons.mp hb with rfl | hb
      · exact Nat.lt_irrefl _
      · exact Nat.not_lt.mpr ((List.pairwise_cons.mp hl).1 b hb)
  top_none := by
    rintro ⟨l, hl⟩ h
    rw [List.head?_eq_none_iff.mp h]
    rfl

end Lib.PriorityQueues
