import Mathlib.Data.List.Basic
import Mathlib.Logic.Function.Basic

/-!
# Painting layer over layer

A canvas `P → C` has a colour at every point; a layer `P → Option C` has one at the
points where it is not transparent. Painting a layer over a canvas changes the
points where the layer has a colour, and a stack of layers, bottom first, is painted
from the bottom up (`paintAll`). What is then seen at a point is the colour of the
topmost layer that has one there (`paintAll_apply`).

A canvas that already shows a stack is repaired, after a change of the layers, by
painting less: a suffix of the stack, each layer of it clipped to a region. `Shows`
says of one point that the canvas has the colour the stack gives it. A point that
shows the stack still does after a repair (`Shows.repaint`), and a point of the region
which the painted layers cover shows the stack whatever the canvas had there
(`shows_repaint`).

A drawing operation is a function of canvases. Those that give a point a colour by what
it had alone (`Pointwise`) are closed under composition, and what two canvases agree on
they still agree on after such an operation.
-/

namespace Lib.Painting

variable {P C : Type*}

/-! ### Layers -/

/-- A layer painted over a canvas. -/
def overlay (b : P → C) (f : P → Option C) : P → C := fun p => (f p).getD (b p)

/-- A stack of layers, bottom first, painted over a canvas. -/
def paintAll (b : P → C) (fs : List (P → Option C)) : P → C := fs.foldl overlay b

/-- The colour of the topmost layer that has one at a point. -/
def topmost (fs : List (P → Option C)) (p : P) : Option C := fs.reverse.findSome? (· p)

@[simp] theorem topmost_nil (p : P) : topmost ([] : List (P → Option C)) p = none := rfl

theorem topmost_append (fs gs : List (P → Option C)) (p : P) :
    topmost (fs ++ gs) p = (topmost gs p).or (topmost fs p) := by
  unfold topmost
  rw [List.reverse_append, List.findSome?_append]

@[simp] theorem topmost_singleton (f : P → Option C) (p : P) : topmost [f] p = f p := by
  unfold topmost
  cases h : f p <;> simp [h]

theorem topmost_cons (f : P → Option C) (fs : List (P → Option C)) (p : P) :
    topmost (f :: fs) p = (topmost fs p).or (f p) := by
  rw [← List.singleton_append, topmost_append, topmost_singleton]

/-- **Painting from the bottom up shows the topmost layer.** -/
theorem paintAll_apply (b : P → C) (fs : List (P → Option C)) (p : P) :
    paintAll b fs p = (topmost fs p).getD (b p) := by
  induction fs generalizing b with
  | nil => rfl
  | cons f fs ih =>
    have h : paintAll b (f :: fs) p = paintAll (overlay b f) fs p := rfl
    rw [h, ih, topmost_cons]
    unfold overlay
    cases topmost fs p <;> rfl

/-- Layers that agree at a point have the same topmost colour there. -/
theorem topmost_congr {α : Type*} {l : List α} {f g : α → P → Option C} {p : P}
    (h : ∀ a ∈ l, f a p = g a p) : topmost (l.map f) p = topmost (l.map g) p := by
  induction l with
  | nil => rfl
  | cons a l ih =>
    rw [List.map_cons, List.map_cons, topmost_cons, topmost_cons, h a (List.mem_cons_self ..),
      ih fun b hb => h b (List.mem_cons_of_mem _ hb)]

/-- Layers without a colour at a point show nothing there. -/
theorem topmost_of_none {α : Type*} {l : List α} {f : α → P → Option C} {p : P}
    (h : ∀ a ∈ l, f a p = none) : topmost (l.map f) p = none := by
  induction l with
  | nil => rfl
  | cons a l ih =>
    rw [List.map_cons, topmost_cons, h a (List.mem_cons_self ..),
      ih fun b hb => h b (List.mem_cons_of_mem _ hb)]
    rfl

/-- A layer without a colour at a point may be taken away. -/
theorem topmost_erase {α : Type*} [DecidableEq α] {l : List α} {f : α → P → Option C} {a : α} {p : P}
    (h : f a p = none) : topmost ((l.erase a).map f) p = topmost (l.map f) p := by
  induction l with
  | nil => rfl
  | cons b l ih =>
    by_cases hb : b = a
    · subst hb
      rw [List.erase_cons_head, List.map_cons, topmost_cons, h, Option.or_none]
    · rw [List.erase_cons_tail (by simpa using hb), List.map_cons, List.map_cons, topmost_cons,
        topmost_cons, ih]

/-- Of layers that may be missing, the missing ones show nothing. -/
theorem topmost_filterMap {α β : Type*} (l : List α) (g : α → Option β) (f : β → P → Option C)
    (p : P) : topmost ((l.filterMap g).map f) p =
      topmost (l.map fun a p => (g a).bind fun b => f b p) p := by
  induction l with
  | nil => rfl
  | cons a l ih =>
    cases hg : g a with
    | none =>
      rw [List.filterMap_cons_none hg, ih, List.map_cons, topmost_cons, hg, Option.bind_none,
        Option.or_none]
    | some b =>
      rw [List.filterMap_cons_some hg, List.map_cons, List.map_cons, topmost_cons, topmost_cons, ih,
        hg, Option.bind_some]

/-! ### Repairing a canvas -/

/-- The canvas has, at a point, the colour a stack gives it. Where no layer has a
colour any colour will do. -/
def Shows (b : P → C) (fs : List (P → Option C)) (p : P) : Prop :=
  ∀ c, topmost fs p = some c → b p = c

/-- A canvas that shows the stack at a point is not changed for the worse by painting
layers `hs` whose topmost colour there, if any, is that of the upper part of the stack. -/
theorem Shows.repaint {b : P → C} {fs gs hs : List (P → Option C)} {p : P}
    (h : Shows b (fs ++ gs) p) (hh : topmost hs p = none ∨ topmost hs p = topmost gs p) :
    Shows (paintAll b hs) (fs ++ gs) p := by
  intro c hc
  rw [paintAll_apply]
  have hb := h c hc
  rw [topmost_append] at hc
  rcases hh with hh | hh
  · rw [hh]
    exact hb
  · rw [hh]
    cases hg : topmost gs p with
    | none => exact hb
    | some c' =>
      rw [hg] at hc
      exact Option.some.inj hc

/-- Where the upper part of the stack has a colour, painting it shows the stack,
whatever the canvas had there. -/
theorem shows_repaint {b : P → C} {fs gs hs : List (P → Option C)} {p : P}
    (hh : topmost hs p = topmost gs p) (hg : topmost gs p ≠ none ∨ fs = []) :
    Shows (paintAll b hs) (fs ++ gs) p := by
  intro c hc
  rw [paintAll_apply, hh]
  rw [topmost_append] at hc
  rcases hg with hg | rfl
  · obtain ⟨c', hc'⟩ := Option.ne_none_iff_exists'.mp hg
    rw [hc'] at hc ⊢
    exact Option.some.inj hc
  · rw [topmost_nil, Option.or_none] at hc
    rw [hc]
    rfl

/-! ### Drawing operations -/

/-- What a drawing operation makes of a point depends on what was there alone. -/
def Pointwise (d : (P → C) → P → C) : Prop := ∀ b b' p, b p = b' p → d b p = d b' p

theorem Pointwise.id : Pointwise fun b : P → C => b := fun _ _ _ h => h

theorem Pointwise.comp {d e : (P → C) → P → C} (hd : Pointwise d) (he : Pointwise e) :
    Pointwise fun b => d (e b) := fun b b' p h => hd (e b) (e b') p (he b b' p h)

/-- Operations made one after the other. -/
theorem Pointwise.foldl {α : Type*} {d : (P → C) → α → P → C} {l : List α}
    (h : ∀ a ∈ l, Pointwise fun b => d b a) : Pointwise fun b => l.foldl d b := by
  induction l with
  | nil => exact Pointwise.id
  | cons a l ih =>
    intro b b' p hp
    exact ih (fun a ha => h a (List.mem_cons_of_mem _ ha)) (d b a) (d b' a) p
      (h a (List.mem_cons_self ..) b b' p hp)

/-! ### Painting point by point -/

variable [DecidableEq P]

/-- The points of a list painted one after the other, each in its colour, if it has one. -/
def paintPoints (b : P → C) (ps : List P) (f : P → Option C) : P → C :=
  ps.foldl (fun b p => match f p with
    | some c => Function.update b p c
    | none => b) b

/-- Painting point by point is painting the layer clipped to the points. -/
theorem paintPoints_apply (b : P → C) (ps : List P) (f : P → Option C) (q : P) :
    paintPoints b ps f q = if q ∈ ps then (f q).getD (b q) else b q := by
  induction ps generalizing b with
  | nil => simp [paintPoints]
  | cons p ps ih =>
    have hstep : paintPoints b (p :: ps) f = paintPoints (match f p with
      | some c => Function.update b p c
      | none => b) ps f := rfl
    rw [hstep, ih]
    by_cases hqp : q = p
    · subst hqp
      cases hf : f q <;> simp
    · have hb : (match f p with
        | some c => Function.update b p c
        | none => b) q = b q := by
        cases f p with
        | some c => exact Function.update_of_ne hqp c b
        | none => rfl
      rw [hb]
      simp [hqp]

end Lib.Painting
