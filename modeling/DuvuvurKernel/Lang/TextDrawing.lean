import DuvuvurKernel.Lang.Font

/-!
# Drawing text

`WriteUTF32String` and `WriteUTF32CharVec` of `lang/font.cpp`, which draw one character after the
other and advance by `IsHankaku`.

## The model

A string is what can be read from its start; reading behind that is undefined. Whatever is drawn on,
drawing is a sequence of `Write`s, and `textPixels` has their positions for each character.

**Result** (`text_in_cells`): both return the width of the text, and each character is drawn in the
cell behind the characters before it, on whichever of the five paths of `WriteUnicodeChar` that
happens. The width of a character and the renderer agree by `charPixels_inside`.
-/

namespace DuvuvurKernel

namespace Font

variable {σ : Type} (w : PixelWriter σ) (f : Font)

/-- The `while` of `WriteUTF32String`. -/
def utf32Loop (pos : Vector2D) (color : PixelColor) : ℤ × σ → List UInt32 → Option (ℤ × σ)
  | _, [] => none
  | t, c :: str => if c = 0 then some t else utf32Loop pos color (f.drawUTF8 w pos color t c) str

/-- `WriteUTF32String`. -/
def writeUTF32String (s : σ) (pos : Vector2D) (str : List UInt32) (color : PixelColor) : Option (ℤ × σ) :=
  f.utf32Loop w pos color (0, s) str

/-- `WriteUTF32CharVec`. -/
def writeUTF32CharVec (s : σ) (pos : Vector2D) (vec : List UInt32) (color : PixelColor) : ℤ × σ :=
  vec.foldl (f.drawUTF8 w pos color) (0, s)

/-! ### The cells of a text -/

/-- The columns of a text. -/
def width (text : List UInt32) : ℤ := (text.map f.columns).sum

/-- The positions drawn for each character of a text, `x` columns to the right of `pos`. -/
def cellPixels (pos : Vector2D) : ℤ → List UInt32 → List (List Vector2D)
  | _, [] => []
  | x, c :: text => (f.charPixels (pos + ⟨8 * x, 0⟩) c).1 :: cellPixels pos (x + f.columns c) text

/-- The positions drawn for each character of a text. -/
def textPixels (pos : Vector2D) (text : List UInt32) : List (List Vector2D) := f.cellPixels pos 0 text

/-- The characters are drawn in their cells, which are in a row from `pos` on. -/
structure InCells (pos : Vector2D) (text : List UInt32) (drawn : List (List Vector2D)) : Prop where
  length_eq : drawn.length = text.length
  cell : ∀ i c ps, text[i]? = some c → drawn[i]? = some ps → ∀ q ∈ ps,
    pos.x + 8 * f.width (text.take i) ≤ q.x ∧
      q.x < pos.x + 8 * f.width (text.take i) + (if f.isHankaku c then 8 else 16) ∧ pos.y ≤ q.y ∧ q.y < pos.y + 16
  box : ∀ ps ∈ drawn, ∀ q ∈ ps,
    pos.x ≤ q.x ∧ q.x < pos.x + 8 * f.width text ∧ pos.y ≤ q.y ∧ q.y < pos.y + 16

variable {w} {f} {pos q : Vector2D} {color : PixelColor} {text : List UInt32} {c : UInt32} {x : ℤ} {s : σ}

@[simp] theorem width_nil : f.width [] = 0 := rfl

@[simp] theorem width_cons : f.width (c :: text) = f.columns c + f.width text := rfl

theorem width_nonneg (f : Font) (text : List UInt32) : 0 ≤ f.width text := by
  induction text with
  | nil => exact le_rfl
  | cons c text ih =>
    have hc := f.columns_pos c
    rw [width_cons]
    omega

theorem width_append (f : Font) (text rest : List UInt32) : f.width (text ++ rest) = f.width text + f.width rest := by
  rw [width, List.map_append, List.sum_append]
  rfl

theorem length_cellPixels (x : ℤ) (text : List UInt32) : (f.cellPixels pos x text).length = text.length := by
  induction text generalizing x with
  | nil => rfl
  | cons c text ih => rw [cellPixels, List.length_cons, ih, List.length_cons]

/-- A character is drawn in its cell. -/
theorem mem_cellPixels {i : ℕ} {ps : List Vector2D} (hc : text[i]? = some c)
    (hps : (f.cellPixels pos x text)[i]? = some ps) (hq : q ∈ ps) :
    pos.x + 8 * (x + f.width (text.take i)) ≤ q.x ∧
      q.x < pos.x + 8 * (x + f.width (text.take i)) + 8 * f.columns c ∧ pos.y ≤ q.y ∧ q.y < pos.y + 16 := by
  induction text generalizing x i with
  | nil => cases hc
  | cons d text ih =>
    cases i with
    | zero =>
      cases hc
      cases hps
      have hin := charPixels_inside hq
      simp only [Vector2D.add_x, Vector2D.add_y] at hin
      simp only [List.take_zero, width_nil]
      omega
    | succ i =>
      have hin := ih hc hps
      simp only [List.take_succ_cons, width_cons]
      omega

/-- Drawing is writing the cells one after the other. -/
theorem foldl_drawUTF8 (text : List UInt32) (x : ℤ) (s : σ) : text.foldl (f.drawUTF8 w pos color) (x, s) =
    (x + f.width text, w.writeAll s (f.cellPixels pos x text).flatten color) := by
  induction text generalizing x s with
  | nil =>
    rw [width_nil, Int.add_zero]
    rfl
  | cons c text ih =>
    have hstep : f.drawUTF8 w pos color (x, s) c =
        (x + f.columns c, w.writeAll s (f.charPixels (pos + ⟨8 * x, 0⟩) c).1 color) := rfl
    rw [List.foldl_cons, hstep, ih, width_cons, Int.add_assoc, cellPixels, List.flatten_cons]
    refine Prod.ext rfl ?_
    show _ = List.foldl _ _ (_ ++ _)
    rw [List.foldl_append]
    rfl

/-- The loop over a string ends at its terminator. -/
theorem utf32Loop_eq (h : ∀ c ∈ text, c ≠ 0) (rest : List UInt32) (t : ℤ × σ) :
    f.utf32Loop w pos color t (text ++ 0 :: rest) = some (text.foldl (f.drawUTF8 w pos color) t) := by
  induction text generalizing t with
  | nil => exact if_pos rfl
  | cons c text ih =>
    obtain ⟨hc, htext⟩ := List.forall_mem_cons.mp h
    rw [List.cons_append, utf32Loop, if_neg hc, ih htext, List.foldl_cons]

theorem inCells_textPixels (f : Font) (pos : Vector2D) (text : List UInt32) :
    f.InCells pos text (f.textPixels pos text) := by
  refine ⟨length_cellPixels 0 text, fun i c ps hc hps q hq => ?_, fun ps hps q hq => ?_⟩
  · have hin := mem_cellPixels hc hps hq
    have hcolumns : 8 * f.columns c = if f.isHankaku c then 8 else 16 := by
      unfold columns
      split <;> rfl
    rw [hcolumns] at hin
    simpa using hin
  · obtain ⟨i, hi, rfl⟩ := List.getElem_of_mem hps
    have hlt : i < text.length := by rwa [textPixels, length_cellPixels] at hi
    have hin := mem_cellPixels (List.getElem?_eq_getElem hlt) (List.getElem?_eq_getElem hi) hq
    -- The cell ends where the rest of the text begins.
    have hsplit : f.width text = f.width (text.take i) + (f.columns text[i] + f.width (text.drop (i + 1))) := by
      rw [← width_cons, List.getElem_cons_drop hlt, ← width_append, List.take_append_drop]
    have hbefore := f.width_nonneg (text.take i)
    have hafter := f.width_nonneg (text.drop (i + 1))
    omega

/-- **Text is drawn in its cells**, and the width that is returned is that of the text. -/
theorem text_in_cells (w : PixelWriter σ) (f : Font) (s : σ) (pos : Vector2D) (text rest : List UInt32)
    (color : PixelColor) (h : ∀ c ∈ text, c ≠ 0) :
    f.InCells pos text (f.textPixels pos text) ∧
      f.writeUTF32String w s pos (text ++ 0 :: rest) color =
        some (f.width text, w.writeAll s (f.textPixels pos text).flatten color) ∧
      f.writeUTF32CharVec w s pos text color =
        (f.width text, w.writeAll s (f.textPixels pos text).flatten color) := by
  have hdraw : text.foldl (f.drawUTF8 w pos color) (0, s) =
      (f.width text, w.writeAll s (f.textPixels pos text).flatten color) := by
    rw [foldl_drawUTF8, Int.zero_add]
    rfl
  exact ⟨inCells_textPixels f pos text, (utf32Loop_eq h rest (0, s)).trans (congrArg some hdraw), hdraw⟩

/-- Without any glyphs or fonts: a letter of one column, and one of two. -/
theorem text_in_cells_glitched : empty.InCells ⟨0, 0⟩ [0x41, 0x3042] (empty.textPixels ⟨0, 0⟩ [0x41, 0x3042]) :=
  (text_in_cells ⟨fun (s : List Vector2D) p _ => p :: s⟩ empty [] ⟨0, 0⟩ [0x41, 0x3042] [] (toColor 0) (by simp)).1

end Font

end DuvuvurKernel
