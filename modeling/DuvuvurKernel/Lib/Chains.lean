import Mathlib.Data.List.Nodup
import Mathlib.Logic.Function.Basic
import Mathlib.Tactic

/-!
# Chains in a successor table

Elements linked by a table that gives each its successor, if it has one. `Linked` is
the chain from an element to the first that has none. Such a chain is determined by
where it starts (`Linked.unique`), so it has no element twice (`Linked.nodup`), and
from any element of it on it is a chain again (`Linked.of_mem`). A change of the
table elsewhere leaves it alone (`Linked.congr`), and one at its last element appends
another chain to it (`Linked.append`).
-/

namespace Lib.Chains

variable {α : Type*} {next next' : α → Option α} {c d e : α} {cs ds : List α}

/-- `Linked next c cs`: following `next` from `c`, the elements are `cs`, and the last has no next. -/
inductive Linked (next : α → Option α) : α → List α → Prop where
  /-- An element without a next one. -/
  | last {c : α} : next c = none → Linked next c [c]
  /-- An element and the chain from its next one. -/
  | cons {c d : α} {cs : List α} : next c = some d → Linked next d cs → Linked next c (c :: cs)

theorem Linked.head? (h : Linked next c cs) : cs.head? = some c := by
  cases h <;> rfl

theorem Linked.ne_nil (h : Linked next c cs) : cs ≠ [] := by
  cases h <;> simp

theorem Linked.length_pos (h : Linked next c cs) : 0 < cs.length :=
  List.length_pos_of_ne_nil h.ne_nil

theorem Linked.getElem?_zero (h : Linked next c cs) : cs[0]? = some c := by
  cases h <;> rfl

theorem Linked.mem_self (h : Linked next c cs) : c ∈ cs := by
  cases h <;> simp

/-- A chain is determined by where it starts. -/
theorem Linked.unique (h : Linked next c cs) (h' : Linked next c ds) : cs = ds := by
  induction h generalizing ds with
  | last hn =>
    cases h' with
    | last => rfl
    | cons hs => rw [hn] at hs; cases hs
  | cons hs _ ih =>
    cases h' with
    | last hn => rw [hn] at hs; cases hs
    | cons hs' h' =>
      rw [hs, Option.some.injEq] at hs'
      subst hs'
      rw [ih h']

/-- From any of its elements on, a chain is a chain. -/
theorem Linked.drop (h : Linked next c cs) {i : ℕ} (hi : i < cs.length) : Linked next cs[i] (cs.drop i) := by
  induction h generalizing i with
  | last hn =>
    obtain rfl : i = 0 := by simpa using hi
    exact .last hn
  | cons hs h ih =>
    cases i with
    | zero => exact .cons hs h
    | succ i => exact ih (by simpa using hi)

theorem Linked.of_mem (h : Linked next c cs) (hd : d ∈ cs) :
    ∃ pre ds, cs = pre ++ ds ∧ Linked next d ds := by
  obtain ⟨i, hi, rfl⟩ := List.getElem_of_mem hd
  exact ⟨cs.take i, cs.drop i, (List.take_append_drop i cs).symm, h.drop hi⟩

/-- A chain has no element twice. -/
theorem Linked.nodup (h : Linked next c cs) : cs.Nodup := by
  induction h with
  | last => simp
  | @cons c d cs hs h ih =>
    refine List.nodup_cons.mpr ⟨fun hc => ?_, ih⟩
    -- the chain from `c` would be a proper part of itself
    obtain ⟨pre, ds, rfl, hself⟩ := h.of_mem hc
    have hlen := congrArg List.length (hself.unique (.cons hs h))
    simp only [List.length_cons, List.length_append] at hlen
    omega

theorem Linked.next_self (h : Linked next c cs) : next c = cs[1]? := by
  cases h with
  | last hn => exact hn
  | cons hs h =>
    rw [hs, List.getElem?_cons_succ, ← h.head?, List.head?_eq_getElem?]

theorem Linked.next_getElem (h : Linked next c cs) {i : ℕ} (hi : i < cs.length) : next cs[i] = cs[i + 1]? := by
  rw [(h.drop hi).next_self, List.getElem?_drop]

theorem Linked.next_mem (h : Linked next c cs) (hd : d ∈ cs) (he : next d = some e) : e ∈ cs := by
  obtain ⟨i, hi, rfl⟩ := List.getElem_of_mem hd
  rw [h.next_getElem hi] at he
  exact List.mem_of_getElem? he

theorem Linked.next_getLast (h : Linked next c cs) : next (cs.getLast h.ne_nil) = none := by
  rw [List.getLast_eq_getElem, h.next_getElem, List.getElem?_eq_none]
  have := h.length_pos
  omega

/-- A chain is left alone by a change of the table elsewhere. -/
theorem Linked.congr (h : Linked next c cs) (hn : ∀ d ∈ cs, next' d = next d) : Linked next' c cs := by
  induction h with
  | last hs => exact .last ((hn _ (by simp)).trans hs)
  | cons hs _ ih =>
    exact .cons ((hn _ (by simp)).trans hs) (ih fun d hd => hn d (List.mem_cons_of_mem _ hd))

/-- A chain whose last element is given a next one is continued by the chain from there. -/
theorem Linked.append (h : Linked next c cs) (hn : ∀ x ∈ cs, x ≠ cs.getLast h.ne_nil → next' x = next x)
    (hl : next' (cs.getLast h.ne_nil) = some d) (hd : Linked next' d ds) : Linked next' c (cs ++ ds) := by
  induction h with
  | last hs => exact .cons hl hd
  | @cons c e cs hs h ih =>
    have hlast : (c :: cs).getLast (by simp) = cs.getLast h.ne_nil := List.getLast_cons h.ne_nil
    have hc : c ≠ cs.getLast h.ne_nil := by
      rintro hc
      exact (List.nodup_cons.mp (Linked.cons hs h).nodup).1 (hc ▸ List.getLast_mem h.ne_nil)
    rw [List.cons_append]
    refine .cons ((hn c (by simp) (by rwa [hlast])).trans hs) (ih (fun x hx hne => ?_) (by rwa [← hlast]))
    exact hn x (List.mem_cons_of_mem _ hx) (by rwa [hlast])

/-- Chains that share an element share the rest. -/
theorem Linked.getLast_eq_of_mem (h : Linked next c cs) (h' : Linked next d ds) (hc : e ∈ cs) (hd : e ∈ ds) :
    cs.getLast h.ne_nil = ds.getLast h'.ne_nil := by
  obtain ⟨pre, es, rfl, he⟩ := h.of_mem hc
  obtain ⟨pre', es', rfl, he'⟩ := h'.of_mem hd
  obtain rfl := he.unique he'
  rw [List.getLast_append_of_ne_nil _ he.ne_nil, List.getLast_append_of_ne_nil _ he.ne_nil]

end Lib.Chains
