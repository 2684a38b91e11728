import Mathlib.Data.List.SplitBy

/-!
# Lines

A line ends with the first element at which it stops; the last line of a list may end with the list. The lines of a list
are the pieces into which it falls when it is cut behind every such element, and whoever takes one line after the other
off a list gets them (`lines_eq`).
-/

namespace Lib.Lines

variable {α : Type*} (stop : α → Bool)

/-- The first line. -/
def firstLine : List α → List α
  | [] => []
  | a :: l => a :: if stop a then [] else firstLine l

/-- The lines of a list. -/
def lines (l : List α) : List (List α) := l.splitBy fun a _ => !stop a

variable {stop} {l : List α}

theorem firstLine_isPrefix (stop : α → Bool) (l : List α) : firstLine stop l <+: l := by
  induction l with
  | nil => exact List.prefix_rfl
  | cons a l ih =>
    rw [firstLine, List.prefix_cons_inj]
    split
    · exact List.nil_prefix
    · exact ih

/-- The list is its first line, and the rest. -/
theorem firstLine_append_drop (stop : α → Bool) (l : List α) :
    firstLine stop l ++ l.drop (firstLine stop l).length = l := by
  obtain ⟨rest, hrest⟩ := firstLine_isPrefix stop l
  have hdrop : l.drop (firstLine stop l).length = rest := by rw [← hrest, List.drop_left']; rw [hrest]
  rw [hdrop, hrest]

theorem firstLine_ne_nil (stop : α → Bool) (h : l ≠ []) : firstLine stop l ≠ [] := by
  cases l with
  | nil => exact absurd rfl h
  | cons a l => exact List.cons_ne_nil _ _

/-- It does not stop before its end. -/
theorem isChain_firstLine (stop : α → Bool) (l : List α) : (firstLine stop l).IsChain fun a _ => (!stop a) = true := by
  induction l with
  | nil => exact .nil
  | cons a l ih =>
    rw [firstLine]
    split
    next => exact .singleton a
    next ha => exact List.isChain_cons.mpr ⟨fun _ _ => by simpa using ha, ih⟩

/-- If it is not the whole list, it stops. -/
theorem stop_getLast?_firstLine {a b : α} (ha : a ∈ (firstLine stop l).getLast?)
    (hb : b ∈ (l.drop (firstLine stop l).length).head?) : stop a = true := by
  induction l with
  | nil => cases ha
  | cons c l ih =>
    rw [firstLine] at ha hb
    split at ha
    next hc =>
      obtain rfl : c = a := Option.some.inj ha
      exact hc
    next hc =>
      rw [if_neg hc, List.length_cons, List.drop_succ_cons] at hb
      cases hl : firstLine stop l with
      | nil =>
        have hnil : l = [] := by_contra fun hne => firstLine_ne_nil stop hne hl
        rw [hnil, List.drop_nil] at hb
        cases hb
      | cons d ds =>
        rw [hl, List.getLast?_cons_cons, ← hl] at ha
        exact ih ha hb

/-- However it is cut, it does not stop before its end. -/
theorem not_stop_of_mem_dropLast_take {a : α} {n : ℕ} (h : a ∈ ((firstLine stop l).take n).dropLast) :
    stop a = false := by
  induction l generalizing n with
  | nil => simp [firstLine] at h
  | cons b l ih =>
    cases n with
    | zero => simp at h
    | succ n =>
      rw [firstLine, List.take_succ_cons] at h
      split at h
      next => simp at h
      next hb =>
        cases hrest : (firstLine stop l).take n with
        | nil =>
          rw [hrest] at h
          cases h
        | cons c cs =>
          rw [hrest, List.dropLast_cons_cons, ← hrest] at h
          rcases List.mem_cons.mp h with rfl | h
          · simpa using hb
          · exact ih h

/-- Cut behind `n` elements, it stops or has `n` of them, if it is not the whole list. -/
theorem stop_or_length_take {n : ℕ} (h : l.drop ((firstLine stop l).take n).length ≠ []) :
    (∃ a ∈ ((firstLine stop l).take n).getLast?, stop a = true) ∨ ((firstLine stop l).take n).length = n := by
  rcases Nat.lt_or_ge (firstLine stop l).length n with hlt | hge
  · left
    rw [List.take_of_length_le hlt.le] at h ⊢
    have hne : firstLine stop l ≠ [] := firstLine_ne_nil stop fun hl => h (by rw [hl, List.drop_nil])
    obtain ⟨b, hb⟩ := Option.ne_none_iff_exists'.mp (mt List.head?_eq_none_iff.mp h)
    have hlast := List.getLast?_eq_some_getLast hne
    exact ⟨_, hlast, stop_getLast?_firstLine hlast hb⟩
  · exact .inr (List.length_take_of_le hge)

/-- **The lines** of a list are its first line, and the lines of the rest. -/
theorem lines_eq (stop : α → Bool) (h : l ≠ []) :
    lines stop l = firstLine stop l :: lines stop (l.drop (firstLine stop l).length) := by
  have hcut : ∀ a ∈ (firstLine stop l).getLast?, ∀ b ∈ (l.drop (firstLine stop l).length).head?, (!stop a) = false :=
    fun a ha b hb => by rw [stop_getLast?_firstLine ha hb]; rfl
  calc lines stop l = lines stop (firstLine stop l ++ l.drop (firstLine stop l).length) := by rw [firstLine_append_drop]
    _ = lines stop (firstLine stop l) ++ lines stop (l.drop (firstLine stop l).length) := List.splitBy_append hcut
    _ = firstLine stop l :: lines stop (l.drop (firstLine stop l).length) := by
      rw [lines, List.splitBy_of_isChain (firstLine_ne_nil stop h) (isChain_firstLine stop l)]
      rfl

end Lib.Lines
