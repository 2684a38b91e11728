import Mathlib.Algebra.BigOperators.Group.Finset.Basic
import Mathlib.Algebra.Order.BigOperators.Group.Finset
import Mathlib.Data.Multiset.OrderedMonoid
import Mathlib.Data.Multiset.Bind

/-!
# Trees of tables in a store

A store maps addresses to tables, and the slots of a table to entries. An entry is
absent, or points to the address of a page or of another table; how many tables there
are on the way down to a page is its height. Pages may be shared, so an entry that
points to one says whether the page is its own.

`held` is the multiset of the addresses that belong to an entry: the tables below it,
and the pages that are its own. If it has no address twice, what is below one slot
of a table can be changed without a change below the others (`held_congr`), and the
sum over the slots changes by what is added below the one (`below_add`).
-/

namespace Lib.TableTrees

variable {α ι ε : Type*}

/-- How an entry is read. -/
structure Format (α ε : Type*) where
  /-- Where a present entry points to. -/
  child : ε → Option α
  /-- Whether the page it points to is its own. -/
  owns : ε → Bool

/-- The format in which no page is owned. -/
def Format.bare (F : Format α ε) : Format α ε := { F with owns := fun _ => false }

variable (F : Format α ε) (S : Finset ι) (μ : α → ι → ε)

/-- The addresses that belong to an entry of height `n`, and are in use below it. -/
def held : ℕ → ε → Multiset α
  | 0, e =>
    match F.child e with
    | none => 0
    | some c => if F.owns e then {c} else 0
  | n + 1, e =>
    match F.child e with
    | none => 0
    | some c => {c} + ∑ i ∈ S, held n (μ c i)

/-- The tables among them. -/
def tables : ℕ → ε → Multiset α := held F.bare S μ

/-- What belongs to the slots `T` of a table whose entries have height `n`. -/
def below (T : Finset ι) (n : ℕ) (t : α) : Multiset α := ∑ i ∈ T, held F S μ n (μ t i)

/-- All entries below an entry have a property, which may depend on the height. -/
def Every (Q : ℕ → ε → Prop) : ℕ → ε → Prop
  | 0, e => Q 0 e
  | n + 1, e => Q (n + 1) e ∧ ∀ c, F.child e = some c → ∀ i ∈ S, Every Q n (μ c i)

/-- The entry at the end of a path of slots. -/
def follow : ε → List ι → Option ε
  | e, [] => some e
  | e, i :: path => (F.child e).bind fun c => follow (μ c i) path

variable {F S μ} {μ' : α → ι → ε} {T : Finset ι} {Q : ℕ → ε → Prop} {n : ℕ} {e : ε} {t c : α} {i j : ι}

/-! ### Absent entries -/

theorem held_of_absent (h : F.child e = none) : held F S μ n e = 0 := by
  cases n <;> simp [held, h]

theorem held_succ (h : F.child e = some c) : held F S μ (n + 1) e = {c} + below F S μ S n c := by
  rw [held, h, below]

theorem every_of_absent (h : F.child e = none) (hQ : Q n e) : Every F S μ Q n e := by
  cases n with
  | zero => exact hQ
  | succ n => exact ⟨hQ, fun c hc => by rw [h] at hc; cases hc⟩

theorem Every.root (h : Every F S μ Q n e) : Q n e := by
  cases n with
  | zero => exact h
  | succ n => exact h.1

theorem Every.mono {R : ℕ → ε → Prop} (h : Every F S μ Q n e) (hR : ∀ n e, Q n e → R n e) : Every F S μ R n e := by
  induction n generalizing e with
  | zero => exact hR 0 e h
  | succ n ih => exact ⟨hR _ e h.1, fun c hc i hi => ih (h.2 c hc i hi)⟩

theorem below_of_absent (h : ∀ i ∈ T, F.child (μ t i) = none) : below F S μ T n t = 0 :=
  Finset.sum_eq_zero fun i hi => held_of_absent (h i hi)

/-! ### Parts of the sum over the slots -/

theorem held_le_below (hi : i ∈ T) : held F S μ n (μ t i) ≤ below F S μ T n t :=
  Finset.single_le_sum (f := fun i => held F S μ n (μ t i)) (fun _ _ => Multiset.zero_le _) hi

theorem mem_below {x : α} : x ∈ below F S μ T n t ↔ ∃ i ∈ T, x ∈ held F S μ n (μ t i) := by
  rw [below, Multiset.mem_sum]

/-- What is below two slots has no address in common. -/
theorem disjoint_of_nodup_below [DecidableEq ι] (h : (below F S μ T n t).Nodup) (hi : i ∈ T) (hj : j ∈ T)
    (hne : i ≠ j) :
    Disjoint (held F S μ n (μ t i)) (held F S μ n (μ t j)) := by
  rw [below, ← Finset.add_sum_erase T _ hi, Multiset.nodup_add] at h
  refine h.2.2.mono_right ?_
  exact Finset.single_le_sum (f := fun i => held F S μ n (μ t i)) (fun _ _ => Multiset.zero_le _)
    (Finset.mem_erase.mpr ⟨hne.symm, hj⟩)

theorem tables_le_held : tables F S μ n e ≤ held F S μ n e := by
  rw [tables]
  induction n generalizing e with
  | zero =>
    cases h : F.child e with
    | none => simp [held, Format.bare, h]
    | some c => simp [held, Format.bare, h]
  | succ n ih =>
    cases h : F.child e with
    | none => simp [held, Format.bare, h]
    | some c =>
      have hb : F.bare.child e = some c := h
      rw [held_succ h, held_succ hb, below, below]
      exact add_le_add_right (Finset.sum_le_sum fun i _ => ih) _

theorem mem_tables_child (h : F.child e = some c) : c ∈ tables F S μ (n + 1) e := by
  have hb : F.bare.child e = some c := h
  rw [tables, held_succ hb]
  simp

theorem mem_tables_of_child (h : F.child e = some c) (hi : i ∈ S) {x : α} (hx : x ∈ tables F S μ n (μ c i)) :
    x ∈ tables F S μ (n + 1) e := by
  have hb : F.bare.child e = some c := h
  rw [tables, held_succ hb, Multiset.mem_add]
  exact Or.inr (mem_below.mpr ⟨i, hi, hx⟩)

/-- What belongs to an entry is pointed to by it, or by an entry of the store. -/
theorem child_of_mem_held {x : α} (h : x ∈ held F S μ n e) : F.child e = some x ∨ ∃ c i, F.child (μ c i) = some x := by
  induction n generalizing e with
  | zero =>
    cases hc : F.child e with
    | none =>
      rw [held_of_absent hc] at h
      exact absurd h (Multiset.notMem_zero x)
    | some c =>
      unfold held at h
      rw [hc] at h
      dsimp only at h
      split at h
      · rw [Multiset.mem_singleton] at h
        exact .inl (h ▸ rfl)
      · exact absurd h (Multiset.notMem_zero x)
  | succ n ih =>
    cases hc : F.child e with
    | none =>
      rw [held_of_absent hc] at h
      exact absurd h (Multiset.notMem_zero x)
    | some c =>
      rw [held_succ hc, Multiset.mem_add, Multiset.mem_singleton] at h
      rcases h with rfl | h
      · exact .inl rfl
      · obtain ⟨i, -, hi⟩ := mem_below.mp h
        exact .inr ((ih hi).elim (fun hx => ⟨c, i, hx⟩) id)

/-! ### What does not change -/

/-- What belongs to an entry depends on the tables below it only. -/
theorem held_congr (h : ∀ x ∈ tables F S μ n e, μ' x = μ x) : held F S μ' n e = held F S μ n e := by
  induction n generalizing e with
  | zero => rfl
  | succ n ih =>
    cases hc : F.child e with
    | none => rw [held_of_absent hc, held_of_absent hc]
    | some c =>
      rw [held_succ hc, held_succ hc, below, below, h c (mem_tables_child hc)]
      congr 1
      exact Finset.sum_congr rfl fun i hi => ih fun x hx => h x (mem_tables_of_child hc hi hx)

theorem below_congr (ht : μ' t = μ t) (h : ∀ i ∈ T, ∀ x ∈ tables F S μ n (μ t i), μ' x = μ x) :
    below F S μ' T n t = below F S μ T n t := by
  refine Finset.sum_congr rfl fun i hi => ?_
  rw [ht]
  exact held_congr (h i hi)

theorem every_congr (h : ∀ x ∈ tables F S μ n e, μ' x = μ x) (hQ : Every F S μ Q n e) : Every F S μ' Q n e := by
  induction n generalizing e with
  | zero => exact hQ
  | succ n ih =>
    refine ⟨hQ.1, fun c hc i hi => ?_⟩
    rw [h c (mem_tables_child hc)]
    exact ih (fun x hx => h x (mem_tables_of_child hc hi hx)) (hQ.2 c hc i hi)

theorem follow_congr {path : List ι} (hp : path.length ≤ n) (hS : ∀ i ∈ path, i ∈ S)
    (h : ∀ x ∈ tables F S μ n e, μ' x = μ x) : follow F μ' e path = follow F μ e path := by
  induction path generalizing n e with
  | nil => rfl
  | cons i path ih =>
    obtain ⟨n, rfl⟩ := Nat.exists_eq_add_of_le' hp
    cases hc : F.child e with
    | none => simp [follow, hc]
    | some c =>
      have hi : i ∈ S := hS i List.mem_cons_self
      simp only [follow, hc, Option.bind_some]
      rw [h c (mem_tables_child hc)]
      exact ih (Nat.le_add_left _ _) (fun j hj => hS j (List.mem_cons_of_mem _ hj)) fun x hx =>
        h x (mem_tables_of_child hc hi hx)

/-- A change below one slot adds to the sum over all of them what it adds there. -/
theorem below_add [DecidableEq ι] {X : Multiset α} (hi : i ∈ T)
    (hadd : held F S μ' n (μ' t i) = held F S μ n (μ t i) + X)
    (hrest : ∀ j ∈ T, j ≠ i → held F S μ' n (μ' t j) = held F S μ n (μ t j)) :
    below F S μ' T n t = below F S μ T n t + X := by
  rw [below, below, ← Finset.add_sum_erase T _ hi, ← Finset.add_sum_erase T (fun i => held F S μ n (μ t i)) hi, hadd,
    Finset.sum_congr rfl fun j hj => hrest j (Finset.mem_of_mem_erase hj) (Finset.ne_of_mem_erase hj)]
  exact add_right_comm _ _ _

end Lib.TableTrees
