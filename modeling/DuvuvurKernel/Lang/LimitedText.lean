import DuvuvurKernel.Lang.TextDrawing
import DuvuvurKernel.Lang.TextWindowDisplay
import DuvuvurKernel.Lib.Prefixes

/-!
# Text up to a width

`WriteUTF32StringWithUpperLimit` and `WriteUTF32CharVecWithUpperLimit` of `lang/font.cpp`, and how `Render` of the input
method (`lang/textwindowpekzep.cpp`) draws two texts in one line with them.

## The model

A string is what can be read from its start; reading behind that is undefined. The loop over a vector is
`writeUTF32WithUpperLimit`. Of a text that leaves the limit, one character more is measured than drawn.

**Result** (`limited_drawing`): both draw the longest prefix of the text that fits, each character in its cell, and
return its width. In `Render` the letters get what the text has left of the line, so the two do not
overlap, and the cursor stays in the line.
-/

namespace DuvuvurKernel

open Lib.Prefixes

namespace Font

variable {σ : Type} (w : PixelWriter σ) (f : Font)

/-- The `while` of `WriteUTF32StringWithUpperLimit`. -/
def utf32LoopWithUpperLimit (pos : Vector2D) (color : PixelColor) (maxWidth : ℤ) :
    σ → ℤ → List UInt32 → Option (ℤ × σ)
  | _, _, [] => none
  | s, x, c :: str =>
    if c = 0 then some (x, s)
    else
      let newX := x + f.columns c
      if newX > maxWidth then some (x, s)
      else utf32LoopWithUpperLimit pos color maxWidth (f.writeUnicodeChar w s (pos + ⟨8 * x, 0⟩) c color) newX str

/-- `WriteUTF32StringWithUpperLimit`, given what can be read from `str` on. -/
def writeUTF32TerminatedWithUpperLimit (s : σ) (pos : Vector2D) (str : List UInt32) (color : PixelColor)
    (maxWidth : ℤ) : Option (ℤ × σ) := f.utf32LoopWithUpperLimit w pos color maxWidth s 0 str

/-- What the two functions do with a text: the longest prefix that fits is drawn, each character in its
cell, and its width is returned. -/
structure Limited (s : σ) (pos : Vector2D) (text : List UInt32) (color : PixelColor) (maxWidth : ℤ)
    (shown : List UInt32) : Prop where
  longest : LongestWithin f.columns maxWidth text shown
  cells : f.InCells pos shown (f.textPixels pos shown)
  charVec : f.writeUTF32CharVecWithUpperLimit w s pos text color maxWidth =
    (f.width shown, w.writeAll s (f.textPixels pos shown).flatten color)
  string : (∀ c ∈ text, c ≠ 0) → ∀ rest,
    f.writeUTF32TerminatedWithUpperLimit w s pos (text ++ 0 :: rest) color maxWidth =
      some (f.width shown, w.writeAll s (f.textPixels pos shown).flatten color)

variable {w} {f} {pos q : Vector2D} {color : PixelColor} {text letters : List UInt32} {maxWidth x : ℤ} {s : σ}

/-- The loop over a string does what the loop over its characters does. -/
theorem utf32LoopWithUpperLimit_eq (h : ∀ c ∈ text, c ≠ 0) (rest : List UInt32) (s : σ) (x : ℤ) :
    f.utf32LoopWithUpperLimit w pos color maxWidth s x (text ++ 0 :: rest) =
      some (f.writeUTF32WithUpperLimit w pos color maxWidth s x text) := by
  induction text generalizing s x with
  | nil => exact if_pos rfl
  | cons c text ih =>
    obtain ⟨hc, htext⟩ := List.forall_mem_cons.mp h
    rw [List.cons_append, utf32LoopWithUpperLimit, if_neg hc, writeUTF32WithUpperLimit]
    dsimp only
    split
    · rfl
    · exact ih htext _ _

/-- What is drawn, `x` columns to the right, and the width that is returned. -/
theorem writeUTF32WithUpperLimit_eq (pos : Vector2D) (color : PixelColor) (maxWidth : ℤ) (text : List UInt32) (s : σ)
    (x : ℤ) :
    f.writeUTF32WithUpperLimit w pos color maxWidth s x text =
      (x + f.width (within f.columns (maxWidth - x) text),
        w.writeAll s (f.cellPixels pos x (within f.columns (maxWidth - x) text)).flatten color) := by
  induction text generalizing s x with
  | nil =>
    rw [within, width_nil, Int.add_zero]
    rfl
  | cons c text ih =>
    rw [writeUTF32WithUpperLimit, within]
    by_cases hfits : f.columns c ≤ maxWidth - x
    · rw [if_neg (by omega), if_pos hfits, ih, Int.sub_sub, width_cons, Int.add_assoc, cellPixels, List.flatten_cons]
      refine Prod.ext rfl ?_
      show _ = List.foldl _ _ (_ ++ _)
      rw [List.foldl_append]
      rfl
    · rw [if_pos (by omega), if_neg hfits, width_nil, Int.add_zero]
      rfl

theorem columns_nonneg (f : Font) (c : UInt32) : 0 ≤ f.columns c := Int.le_of_lt (f.columns_pos c)

/-- **The longest prefix that fits is drawn**, and its width returned. -/
theorem writeUTF32CharVecWithUpperLimit_eq (s : σ) (pos : Vector2D) (text : List UInt32) (color : PixelColor)
    (maxWidth : ℤ) : f.writeUTF32CharVecWithUpperLimit w s pos text color maxWidth =
      (f.width (within f.columns maxWidth text),
        w.writeAll s (f.textPixels pos (within f.columns maxWidth text)).flatten color) := by
  have h := writeUTF32WithUpperLimit_eq (f := f) (w := w) pos color maxWidth text s 0
  rw [Int.sub_zero, Int.zero_add] at h
  exact h

theorem limited (w : PixelWriter σ) (f : Font) (s : σ) (pos : Vector2D) (text : List UInt32) (color : PixelColor)
    (h : 0 ≤ maxWidth) : f.Limited w s pos text color maxWidth (within f.columns maxWidth text) where
  longest := longest_within f.columns_nonneg h text
  cells := inCells_textPixels f pos _
  charVec := writeUTF32CharVecWithUpperLimit_eq s pos text color maxWidth
  string hne rest := (utf32LoopWithUpperLimit_eq hne rest s 0).trans
    (congrArg some (writeUTF32CharVecWithUpperLimit_eq s pos text color maxWidth))

/-- A text ends where the next one begins. -/
theorem textPixels_apart (f : Font) (pos : Vector2D) (text letters : List UInt32)
    (h : q ∈ (f.textPixels pos text).flatten) :
    q ∉ (f.textPixels (pos + ⟨8 * f.width text, 0⟩) letters).flatten := by
  intro h'
  obtain ⟨ps, hps, hq⟩ := List.mem_flatten.mp h
  obtain ⟨ps', hps', hq'⟩ := List.mem_flatten.mp h'
  have hleft := (inCells_textPixels f pos text).box ps hps q hq
  have hright := (inCells_textPixels f (pos + ⟨8 * f.width text, 0⟩) letters).box ps' hps' q hq'
  simp only [Vector2D.add_x] at hright
  omega

end Font

namespace IME

variable {f : Font} {dict : List PekzepChar} {m : IME}

/-- What `Render` draws of the text and of the letters, and where it puts the cursor. -/
structure RendersApart (f : Font) (dict : List PekzepChar) (m : IME) (updated : Bool) (text letters : List UInt32) :
    Prop where
  text_longest : LongestWithin f.columns (maxWidth m.box) m.state.solidified text
  letters_longest : LongestWithin f.columns (maxWidth m.box - f.width text) m.state.nonSolidified letters
  drawn : renderText f m.state m.box =
    let cleared := (m.box.clearTextWindow f).drawTextCursor false
    let inner := PrivilegedCursoredTextBox.inner
    let s₁ := inner.writeAll cleared.pixels (f.textPixels ⟨4, 6⟩ text).flatten (toColor 0)
    let s₂ := inner.writeAll s₁ (f.textPixels ⟨4 + 8 * f.width text, 6⟩ letters).flatten (toColor 0xe916c3)
    { cleared with pixels := s₂, cursorIndex := f.width text + f.width letters }.drawTextCursor true
  apart : ∀ q ∈ (f.textPixels ⟨4, 6⟩ text).flatten, q ∉ (f.textPixels ⟨4 + 8 * f.width text, 6⟩ letters).flatten
  cursorIndex : (m.render f dict updated).box.cursorIndex = f.width text + f.width letters
  cursorIndex_le : (m.render f dict updated).box.cursorIndex ≤ maxWidth m.box

/-- **The letters get what the text has left of the line.** -/
theorem rendersApart (h : 0 ≤ maxWidth m.box) (updated : Bool) : ∃ text letters,
    RendersApart f dict m updated text letters := by
  have htext := longest_within f.columns_nonneg h m.state.solidified
  generalize hshown : within f.columns (maxWidth m.box) m.state.solidified = text at htext
  have hroom : 0 ≤ maxWidth m.box - f.width text := Int.sub_nonneg.mpr htext.fits
  have hletters := longest_within f.columns_nonneg hroom m.state.nonSolidified
  generalize hshown' : within f.columns (maxWidth m.box - f.width text) m.state.nonSolidified = letters at hletters
  have hdrawn : renderText f m.state m.box =
      let cleared := (m.box.clearTextWindow f).drawTextCursor false
      let inner := PrivilegedCursoredTextBox.inner
      let s₁ := inner.writeAll cleared.pixels (f.textPixels ⟨4, 6⟩ text).flatten (toColor 0)
      let s₂ := inner.writeAll s₁ (f.textPixels ⟨4 + 8 * f.width text, 6⟩ letters).flatten (toColor 0xe916c3)
      { cleared with pixels := s₂, cursorIndex := f.width text + f.width letters }.drawTextCursor true := by
    have hclear : maxWidth (m.box.clearTextWindow f) = maxWidth m.box := rfl
    unfold renderText
    simp only [Font.writeUTF32CharVecWithUpperLimit_eq, hclear, hshown, hshown']
  have hcursor : (m.render f dict updated).box.cursorIndex = f.width text + f.width letters :=
    congrArg PrivilegedCursoredTextBox.cursorIndex hdrawn
  have hfits : f.width letters ≤ maxWidth m.box - f.width text := hletters.fits
  refine ⟨text, letters, htext, hletters, hdrawn, fun q hq => ?_, hcursor, ?_⟩
  · exact Font.textPixels_apart f ⟨4, 6⟩ text letters hq
  · rw [hcursor]
    omega

/-- **Text is drawn up to a width**, by both functions; in `Render` the text and the letters do not overlap, and
the cursor stays in the line. -/
theorem limited_drawing (f : Font) :
    (∀ {σ : Type} (w : PixelWriter σ) (s : σ) (pos : Vector2D) (text : List UInt32) (color : PixelColor) (maxWidth : ℤ),
      0 ≤ maxWidth → ∃ shown, f.Limited w s pos text color maxWidth shown) ∧
    ∀ (dict : List PekzepChar) (m : IME) (updated : Bool), 0 ≤ maxWidth m.box →
      ∃ text letters, RendersApart f dict m updated text letters :=
  ⟨fun w s pos text color _ h => ⟨_, Font.limited w f s pos text color h⟩, fun _ _ updated h => rendersApart h updated⟩

/-- The input method's own text box: one character of text, and a letter. -/
theorem limited_drawing_pekzep : ∃ text letters, RendersApart Font.empty []
    ⟨⟨[0x3042], [0x61], 0, []⟩, pekzepTextWindow fun _ => ⟨0, 0, 0⟩⟩ true text letters :=
  (limited_drawing Font.empty).2 [] _ true (show (0 : ℤ) ≤ 43 by decide)

end IME

end DuvuvurKernel
