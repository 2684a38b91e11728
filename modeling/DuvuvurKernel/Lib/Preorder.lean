import Mathlib.Data.List.Basic

/-!
# Depth-first visits

The visit of a graph from a list of nodes: the first of them, all that is found from it, and then the others. Nothing
keeps it from coming to a node again, so it may never end. `Walk` says what the whole visit is, if it ends, and
`firstVisits` are the first visits in any case. A visitor that puts the nodes in a table of limited size is `fill`.
-/

namespace Lib.Preorder

variable {V : Type*} (children : V → List V)

/-- `Walk p l`: the visit from `p` ends, and `l` are the nodes in the order of the visits. -/
inductive Walk : List V → List V → Prop where
  /-- There is nothing to visit. -/
  | done : Walk [] []
  /-- The first node, and what is found from it before the others. -/
  | visit {v : V} {p l : List V} : Walk (children v ++ p) l → Walk (v :: p) (v :: l)

/-- The first `n` visits. -/
def firstVisits : ℕ → List V → List V
  | _, [] => []
  | 0, _ :: _ => []
  | n + 1, v :: p => v :: firstVisits n (children v ++ p)

/-- A table with room for `n` nodes is filled: whether there was room for all of them, and the nodes. -/
def fill : ℕ → List V → Bool × List V
  | _, [] => (true, [])
  | 0, _ :: _ => (false, [])
  | n + 1, v :: p => ((fill n (children v ++ p)).1, v :: (fill n (children v ++ p)).2)

variable {children} {n : ℕ} {v : V} {p q l : List V}

theorem fill_nil (n : ℕ) : fill children n [] = (true, []) := by rw [fill]

theorem fill_eq_firstVisits (n : ℕ) (p : List V) : (fill children n p).2 = firstVisits children n p := by
  induction n generalizing p with
  | zero => cases p <;> rfl
  | succ n ih =>
    cases p with
    | nil => rfl
    | cons v p => rw [fill, firstVisits, ih]

theorem length_fill_le (children : V → List V) (n : ℕ) (p : List V) : (fill children n p).2.length ≤ n := by
  induction n generalizing p with
  | zero => cases p <;> exact Nat.le_refl 0
  | succ n ih =>
    cases p with
    | nil => exact Nat.zero_le _
    | cons v p => exact Nat.succ_le_succ (ih _)

/-- The nodes of one list, and then those of the other. -/
theorem fill_append (n : ℕ) (p q : List V) : fill children n (p ++ q) =
    if (fill children n p).1 then
      ((fill children (n - (fill children n p).2.length) q).1,
        (fill children n p).2 ++ (fill children (n - (fill children n p).2.length) q).2)
    else fill children n p := by
  induction n generalizing p with
  | zero =>
    cases p with
    | nil => simp [fill_nil]
    | cons v p => rfl
  | succ n ih =>
    cases p with
    | nil => simp [fill_nil]
    | cons v p =>
      rw [List.cons_append, fill, ← List.append_assoc, ih]
      simp only [fill, List.length_cons, Nat.add_sub_add_right]
      split
      next => rfl
      next => rfl

/-- There is room if the visit ends in time, -/
theorem Walk.fill_eq (h : Walk children p l) (hn : l.length ≤ n) : fill children n p = (true, l) := by
  induction h generalizing n with
  | done => exact fill_nil n
  | visit _ ih =>
    obtain ⟨m, rfl⟩ := Nat.exists_eq_add_of_le' (Nat.le_trans (Nat.succ_le_succ (Nat.zero_le _)) hn)
    rw [fill, ih (Nat.le_of_succ_le_succ hn)]

/-- and only then. -/
theorem walk_of_fill (h : (fill children n p).1 = true) : Walk children p (fill children n p).2 := by
  induction n generalizing p with
  | zero =>
    cases p with
    | nil => exact .done
    | cons v p => exact absurd h Bool.false_ne_true
  | succ n ih =>
    cases p with
    | nil => exact .done
    | cons v p => exact .visit (ih h)

/-- A node from which it is found again is visited for ever. -/
theorem not_walk_self (hself : children v = v :: q) : ¬ Walk children (v :: p) l := by
  intro h
  generalize hstart : v :: p = start at h
  induction h generalizing p with
  | done => cases hstart
  | visit _ ih =>
    cases hstart
    exact ih (by rw [hself, List.cons_append])

/-- The table is full if there was not room for all. -/
theorem length_fill_eq (h : (fill children n p).1 = false) : (fill children n p).2.length = n := by
  induction n generalizing p with
  | zero => exact Nat.eq_zero_of_le_zero (length_fill_le _ 0 p)
  | succ n ih =>
    cases p with
    | nil => exact absurd h.symm Bool.false_ne_true
    | cons v p => exact congrArg Nat.succ (ih h)

/-- **A table of limited size** holds the whole visit, or is full of its first nodes. -/
theorem fill_cases (children : V → List V) (n : ℕ) (p : List V) :
    (∃ l, Walk children p l ∧ l.length ≤ n ∧ fill children n p = (true, l)) ∨
      ((∀ l, Walk children p l → n < l.length) ∧ (firstVisits children n p).length = n ∧
        fill children n p = (false, firstVisits children n p)) := by
  cases h : (fill children n p).1 with
  | true => exact .inl ⟨_, walk_of_fill h, length_fill_le _ n p, Prod.ext h rfl⟩
  | false =>
    refine .inr ⟨fun l hl => Nat.lt_of_not_le fun hle => ?_, ?_, Prod.ext h (fill_eq_firstVisits n p)⟩
    · rw [hl.fill_eq hle] at h
      exact absurd h.symm Bool.false_ne_true
    · rw [← fill_eq_firstVisits, length_fill_eq h]

end Lib.Preorder
