import Mathlib.Init
import Mathlib.Logic.Basic
import Mathlib.Data.Nat.Notation

/-!
# Neighbours in a list

`Linked P l` says of every element of a list something about its place, itself and the
element behind it, if there is one. An element is replaced (`Linked.set`), or a new one
comes to the end (`Linked.push`): only the element before it is concerned, too.

What an element hands on to the one behind it reaches all (`Linked.all`), and what it takes
over from it comes from the last (`Linked.from_last`).
-/

namespace Lib.Neighbours

variable {α : Type*} {P : ℕ → α → Option α → Prop} {l : List α} {a b : α} {i : ℕ}

/-- Each element, with its place and what is behind it. -/
def Linked (P : ℕ → α → Option α → Prop) (l : List α) : Prop := ∀ i a, l[i]? = some a → P i a l[i + 1]?

/-- An element is replaced. -/
theorem Linked.set (h : Linked P l) (hi : l[i]? = some a) (hnew : P i b l[i + 1]?)
    (hbefore : ∀ j c, i = j + 1 → l[j]? = some c → P j c (some a) → P j c (some b)) : Linked P (l.set i b) := by
  have hlt : i < l.length := (List.getElem?_eq_some_iff.mp hi).1
  intro j c hj
  by_cases hij : i = j
  · subst hij
    rw [List.getElem?_set_self hlt, Option.some.injEq] at hj
    subst hj
    rw [List.getElem?_set_ne (Nat.ne_of_lt (Nat.lt_succ_self i))]
    exact hnew
  · rw [List.getElem?_set_ne hij] at hj
    by_cases hnext : i = j + 1
    · have hold := h j c hj
      rw [← hnext, hi] at hold
      rw [← hnext, List.getElem?_set_self hlt]
      exact hbefore j c hnext hj hold
    · rw [List.getElem?_set_ne hnext]
      exact h j c hj

/-- An element comes to the end. -/
theorem Linked.push (h : ∀ j c, j + 1 < l.length → l[j]? = some c → P j c l[j + 1]?) (hlast : P l.length b none)
    (hbefore : ∀ j c, l.length = j + 1 → l[j]? = some c → P j c (some b)) : Linked P (l ++ [b]) := by
  intro j c hj
  rcases Nat.lt_trichotomy j l.length with hlt | rfl | hgt
  · rw [List.getElem?_append_left hlt] at hj
    by_cases hnext : l.length = j + 1
    · rw [← hnext, List.getElem?_append_right (Nat.le_refl _), Nat.sub_self]
      exact hbefore j c hnext hj
    · rw [List.getElem?_append_left (by omega)]
      exact h j c (by omega) hj
  · rw [List.getElem?_append_right (Nat.le_refl _), Nat.sub_self] at hj
    cases hj
    rw [List.getElem?_eq_none (by simp)]
    exact hlast
  · rw [List.getElem?_eq_none (by simp; omega)] at hj
    cases hj

/-- The last element is replaced as another comes behind it. -/
theorem Linked.set_push {c : α} (h : Linked P l) (hi : l[i]? = some a) (hend : l.length = i + 1) (hnew : P i b (some c))
    (hlast : P (i + 1) c none) (hbefore : ∀ j d, i = j + 1 → P j d (some a) → P j d (some b)) :
    Linked P (l.set i b ++ [c]) := by
  have hset : Linked (fun j x y => j ≠ i → P j x y) (l.set i b) := by
    refine Linked.set (fun j x hj _ => h j x hj) hi (fun hne => absurd rfl hne) fun j x hij _ hP _ => ?_
    exact hbefore j x hij (hP (by omega))
  refine Linked.push (fun j x hj hx => hset j x hx ?_) ?_ fun j x hj hx => ?_
  · rw [List.length_set] at hj
    omega
  · rwa [List.length_set, hend]
  · rw [List.length_set] at hj
    obtain rfl : i = j := by omega
    rw [List.getElem?_set_self (by omega), Option.some.injEq] at hx
    exact hx ▸ hnew

/-- What the first element has, and hands on to the one behind it, all have. -/
theorem Linked.all {R : α → Prop} (h : Linked P l) (hstep : ∀ i a b, P i a (some b) → R a → R b) (hi : l[0]? = some a)
    (hR : R a) :
    ∀ (i : ℕ) b, l[i]? = some b → R b := by
  intro i
  induction i with
  | zero =>
    intro b hb
    rw [hi] at hb
    exact Option.some.inj hb ▸ hR
  | succ i ih =>
    intro b hb
    have hlt : i < l.length := Nat.lt_of_succ_lt (List.getElem?_eq_some_iff.mp hb).1
    have hP := h i l[i] (List.getElem?_eq_getElem hlt)
    rw [hb] at hP
    exact hstep i _ b hP (ih _ (List.getElem?_eq_getElem hlt))

/-- What each element takes over from the one behind it, the first has from the last. -/
theorem Linked.from_last {Q : α → α → Prop} {R : α → Prop} (h : Linked P l)
    (hstep : ∀ i a b, P i a (some b) → R a → R b ∧ ∀ c, Q b c → Q a c) (hself : ∀ i a, P i a none → R a → Q a a)
    (hi : l[i]? = some a) (hR : R a) : ∃ z, l[l.length - 1]? = some z ∧ Q a z := by
  have hlt : i < l.length := (List.getElem?_eq_some_iff.mp hi).1
  obtain ⟨n, hn⟩ := Nat.exists_eq_add_of_lt hlt
  induction n generalizing i a with
  | zero =>
    have hP := h i a hi
    rw [List.getElem?_eq_none (by omega)] at hP
    refine ⟨a, ?_, hself i a hP hR⟩
    rw [show l.length - 1 = i by omega]
    exact hi
  | succ n ih =>
    have hnext : i + 1 < l.length := by omega
    have hP := h i a hi
    rw [List.getElem?_eq_getElem hnext] at hP
    obtain ⟨hR', hQ⟩ := hstep i a _ hP hR
    obtain ⟨z, hz, hbz⟩ := ih (List.getElem?_eq_getElem hnext) hR' hnext (by omega)
    exact ⟨z, hz, hQ z hbz⟩

end Lib.Neighbours
