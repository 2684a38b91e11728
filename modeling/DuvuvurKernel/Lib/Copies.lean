import Mathlib.Data.List.Induction
import Mathlib.Data.List.Nodup
import Mathlib.Logic.Function.Basic
import Mathlib.Logic.Nontrivial.Defs

/-!
# Copying cells

A list of copies, each to one cell of a memory from another, is carried out one copy after the other. As long as no cell
is a destination twice, and no source has been a destination before, every destination ends up with what its source has
held at the beginning (`copies_apply`). This cannot be had otherwise: copies that do the same in every memory have these
sources, and find them as they were (`fresh_of_copies`).
-/

namespace Lib.Copies

variable {α β : Type*} [DecidableEq α]

/-- One copy after the other: the destination, and the source. -/
def copies (m : α → β) (l : List (α × α)) : α → β := l.foldl (fun m p => Function.update m p.1 (m p.2)) m

omit [DecidableEq α] in
/-- No source has been a destination before. -/
def Fresh (l : List (α × α)) : Prop := l.Pairwise fun p q => q.2 ≠ p.1

variable {m : α → β} {l : List (α × α)} {p : α × α} {c : α}

/-- The last copy. -/
theorem copies_concat (m : α → β) (l : List (α × α)) (p : α × α) :
    copies m (l ++ [p]) = Function.update (copies m l) p.1 (copies m l p.2) := by
  rw [copies, List.foldl_append]
  rfl

/-- Other cells keep what they hold. -/
theorem copies_of_notMem (h : c ∉ l.map Prod.fst) : copies m l c = m c := by
  induction l using List.reverseRecOn with
  | nil => rfl
  | append_singleton l p ih =>
    rw [List.map_append, List.mem_append, not_or] at h
    rw [copies_concat, Function.update_of_ne fun hc => h.2 (List.mem_singleton.mpr hc), ih h.1]

theorem mem_of_copies_ne (h : copies m l c ≠ m c) : c ∈ l.map Prod.fst := by_contra fun hc => h (copies_of_notMem hc)

/-- **Every destination** gets what its source has held at the beginning. -/
theorem copies_apply (hnodup : (l.map Prod.fst).Nodup) (hfresh : Fresh l) (hp : p ∈ l) : copies m l p.1 = m p.2 := by
  induction l using List.reverseRecOn with
  | nil => exact absurd hp List.not_mem_nil
  | append_singleton l q ih =>
    rw [List.map_append, List.nodup_append'] at hnodup
    obtain ⟨hnodup, -, hnew⟩ := hnodup
    obtain ⟨hfresh, -, hlast⟩ := List.pairwise_append.mp hfresh
    rw [copies_concat]
    rcases List.mem_append.mp hp with hp | hp
    · have hne : p.1 ≠ q.1 := fun h => hnew (List.mem_map_of_mem hp) (h ▸ List.mem_singleton_self _)
      rw [Function.update_of_ne hne, ih hnodup hfresh hp]
    · obtain rfl := List.mem_singleton.mp hp
      rw [Function.update_self]
      refine copies_of_notMem fun hmem => ?_
      obtain ⟨r, hr, hr'⟩ := List.mem_map.mp hmem
      exact hlast r hr p hp hr'.symm

/-- Copies that give the destinations what certain cells have held, in every memory, have these as their sources, and
find them as they were. -/
theorem fresh_of_copies [Nontrivial β] (hnodup : (l.map Prod.fst).Nodup) {source : α → α} (hsource : source.Injective)
    (h : ∀ (m : α → β), ∀ p ∈ l, copies m l p.1 = m (source p.1)) : (∀ p ∈ l, p.2 = source p.1) ∧ Fresh l := by
  induction l using List.reverseRecOn with
  | nil => exact ⟨fun p hp => absurd hp List.not_mem_nil, .nil⟩
  | append_singleton l q ih =>
    rw [List.map_append, List.nodup_append'] at hnodup
    obtain ⟨hnodup, -, hnew⟩ := hnodup
    have hne : ∀ p ∈ l, p.1 ≠ q.1 := fun p hp heq =>
      hnew (List.mem_map_of_mem hp) (heq ▸ List.mem_singleton_self _)
    obtain ⟨hsources, hfresh⟩ := ih hnodup fun m p hp => by
      have hall := h m p (List.mem_append_left _ hp)
      rwa [copies_concat, Function.update_of_ne (hne p hp)] at hall
    have hlast : ∀ m : α → β, copies m l q.2 = m (source q.1) := fun m => by
      have hall := h m q (List.mem_append_right _ (List.mem_singleton_self q))
      rwa [copies_concat, Function.update_self] at hall
    -- A memory in which only the cell that is to be copied differs from the others.
    obtain ⟨a, b, hab⟩ := exists_pair_ne β
    have hsingle : ∀ c, (if c = source q.1 then a else b) = a → c = source q.1 := fun c hc => by
      by_contra hne
      rw [if_neg hne] at hc
      exact hab hc.symm
    have hvalue := hlast fun c => if c = source q.1 then a else b
    rw [if_pos rfl] at hvalue
    have hnotMem : q.2 ∉ l.map Prod.fst := by
      intro hmem
      obtain ⟨r, hr, hr'⟩ := List.mem_map.mp hmem
      rw [← hr', copies_apply hnodup hfresh hr, hsources r hr] at hvalue
      exact hne r hr (hsource (hsingle _ hvalue))
    rw [copies_of_notMem hnotMem] at hvalue
    refine ⟨fun p hp => ?_, List.pairwise_append.mpr ⟨hfresh, List.pairwise_singleton _ _, fun p hp r hr => ?_⟩⟩
    · rcases List.mem_append.mp hp with hp | hp
      · exact hsources p hp
      · rw [List.mem_singleton.mp hp]
        exact hsingle _ hvalue
    · rw [List.mem_singleton.mp hr]
      exact fun heq => hnotMem (heq ▸ List.mem_map_of_mem hp)

end Lib.Copies
