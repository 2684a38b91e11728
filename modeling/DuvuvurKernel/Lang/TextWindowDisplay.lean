import DuvuvurKernel.Lang.TextWindowPekzep

/-!
# What the input method displays

`Render` draws the whole window again, and what it draws is determined by the state: the
window is cleared first (`clearTextWindow_covers`), and erasing the cursor at its old
place leaves a cleared text box as it is. So after a `Render` another one would change
nothing (`render_coherent`), and after a key the display is right if the key ends in one.

One key does not: a space typed when no letters are collected is put behind the text, and
the window is left as it is. It goes unnoticed where the text already fills the line.

**Result** (`displayed_iff`): after every key that changes the state the window shows what
`Render` would draw, exactly when such spaces are only typed in a full line.
-/

namespace DuvuvurKernel

open Lib.Painting Lib.Runs ToplevelWindow

/-! ### Text up to a width -/

namespace Font

variable {f : Font} {w : PixelWriter Pixels} {at' : Vector2D → Vector2D} {pos p : Vector2D} {color : PixelColor}
  {maxWidth x : ℤ} {s : Pixels} {text : List UInt32}

/-- The width that is returned. -/
theorem writeUTF32_width (f : Font) (w : PixelWriter Pixels) (pos : Vector2D) (color : PixelColor) (maxWidth : ℤ)
    (s : Pixels) (x : ℤ) (text : List UInt32) :
    (f.writeUTF32WithUpperLimit w pos color maxWidth s x text).1 = f.widthWithUpperLimit maxWidth x text := by
  induction text generalizing s x with
  | nil => rfl
  | cons c text ih =>
    simp only [writeUTF32WithUpperLimit, widthWithUpperLimit]
    split
    · rfl
    · exact ih _ _

theorem widthWithUpperLimit_bounds (f : Font) (text : List UInt32) (h : x ≤ maxWidth) :
    x ≤ f.widthWithUpperLimit maxWidth x text ∧ f.widthWithUpperLimit maxWidth x text ≤ maxWidth := by
  induction text generalizing x with
  | nil => exact ⟨Int.le_refl x, h⟩
  | cons c text ih =>
    have hpos := f.columns_pos c
    simp only [widthWithUpperLimit]
    split
    · exact ⟨Int.le_refl x, h⟩
    · have hrest : x + f.columns c ≤ _ ∧ _ := ih (by omega)
      exact ⟨by omega, hrest.2⟩

/-- A character that does not widen the text is not drawn. -/
theorem writeUTF32_append_of_full {c : UInt32}
    (h : f.widthWithUpperLimit maxWidth x (text ++ [c]) = f.widthWithUpperLimit maxWidth x text) :
    f.writeUTF32WithUpperLimit w pos color maxWidth s x (text ++ [c]) =
      f.writeUTF32WithUpperLimit w pos color maxWidth s x text := by
  induction text generalizing s x with
  | nil =>
    have hpos := f.columns_pos c
    simp only [List.nil_append, widthWithUpperLimit, writeUTF32WithUpperLimit] at h ⊢
    split at h
    next hw => rw [if_pos hw]
    next => omega
  | cons d text ih =>
    simp only [List.cons_append, widthWithUpperLimit, writeUTF32WithUpperLimit] at h ⊢
    split
    · rfl
    next hw =>
      rw [if_neg hw, if_neg hw] at h
      exact ih h

/-- Text is drawn no higher than its position. -/
theorem writeUTF32_above (h : Writes w at') (hp : (at' p).y < pos.y) :
    (f.writeUTF32WithUpperLimit w pos color maxWidth s x text).2 p = s p := by
  induction text generalizing s x with
  | nil => rfl
  | cons c text ih =>
    simp only [writeUTF32WithUpperLimit]
    split
    · rfl
    · refine ih.trans ((h.writeAll _ _ _ p).trans (if_neg fun hmem => ?_))
      have hy := (charPixels_inside hmem).2.2.1
      simp only [Vector2D.add_y] at hy
      omega

end Font

namespace IME

variable {f : Font} {dict : List PekzepChar} {m m' : IME} {k : Key} {keys : List Key}
  {s : IMEState} {box b b' : PrivilegedCursoredTextBox} {p : Vector2D}

/-- The columns the text and the letters take. -/
def textWidth (f : Font) (s : IMEState) (box : PrivilegedCursoredTextBox) : ℤ :=
  let solidifiedWidth := f.widthWithUpperLimit (maxWidth box) 0 s.solidified
  solidifiedWidth + f.widthWithUpperLimit (maxWidth box - solidifiedWidth) 0 s.nonSolidified

/-- Two boxes with the same window, but for what is drawn in it. -/
structure SameWindow (b b' : PrivilegedCursoredTextBox) : Prop where
  size : b'.size = b.size
  title : b'.title = b.title
  margin : b'.bottomAdditionalMargin = b.bottomAdditionalMargin

/-- The window shows what `Render` would draw for the state, and the cursor is where it would be. -/
def Coherent (f : Font) (dict : List PekzepChar) (m : IME) : Prop :=
  (m.render f dict false).box.cursorIndex = m.box.cursorIndex ∧
    ∀ p, m.box.InWindow p → (m.render f dict false).box.pixels p = m.box.pixels p

namespace SameWindow

theorem refl (b : PrivilegedCursoredTextBox) : SameWindow b b := ⟨rfl, rfl, rfl⟩

theorem trans {b₁ b₂ b₃ : PrivilegedCursoredTextBox} (h : SameWindow b₁ b₂) (h' : SameWindow b₂ b₃) :
    SameWindow b₁ b₃ :=
  ⟨h'.size.trans h.size, h'.title.trans h.title, h'.margin.trans h.margin⟩

theorem innerSize_eq (h : SameWindow b b') : b'.innerSize = b.innerSize := congrArg ToplevelWindow.innerSize h.size

theorem maxWidth_eq (h : SameWindow b b') : maxWidth b' = maxWidth b := by rw [maxWidth, maxWidth, h.innerSize_eq]

theorem roomy (h : SameWindow b b') (hr : b.Roomy) : b'.Roomy := by
  refine ⟨?_, ?_⟩
  · rw [h.innerSize_eq]
    exact hr.wide
  · rw [h.innerSize_eq, h.margin]
    exact hr.high

theorem inWindow (h : SameWindow b b') : b'.InWindow p ↔ b.InWindow p := by
  rw [PrivilegedCursoredTextBox.InWindow, PrivilegedCursoredTextBox.InWindow, h.size]

/-- Cleared windows show the same. -/
theorem clear (h : SameWindow b b') (hp : b.InWindow p) :
    (b'.clearTextWindow f).pixels p = (b.clearTextWindow f).pixels p := by
  obtain ⟨size, title, pixels, cursorIndex, margin⟩ := b
  obtain ⟨size', title', pixels', cursorIndex', margin'⟩ := b'
  obtain ⟨hsize, htitle, hmargin⟩ := h
  dsimp only at hsize htitle hmargin
  subst hsize htitle hmargin
  exact (PrivilegedCursoredTextBox.clearTextWindow_covers hp pixels').symm

theorem drawTextCursor (b : PrivilegedCursoredTextBox) (visible : Bool) : SameWindow b (b.drawTextCursor visible) :=
  ⟨rfl, rfl, rfl⟩

/-- The cursor in the same place is inside too. -/
theorem cursorInside (h : SameWindow b b') (hi : b'.cursorIndex = b.cursorIndex) (hc : b.CursorInside) :
    b'.CursorInside := by
  refine ⟨?_, ?_⟩
  · rw [hi]
    exact hc.nonneg
  · rw [hi, h.innerSize_eq]
    exact hc.fits

end SameWindow

/-! ### `Render` -/

theorem maxWidth_nonneg (hr : box.Roomy) : 2 ≤ maxWidth box := by
  have hwide := hr.wide
  unfold maxWidth
  rw [Int.tdiv_eq_ediv_of_nonneg (by omega)]
  omega

theorem textWidth_bounds (f : Font) (s : IMEState) (hr : box.Roomy) :
    0 ≤ textWidth f s box ∧ textWidth f s box ≤ maxWidth box := by
  have hmax := maxWidth_nonneg hr
  have htext := f.widthWithUpperLimit_bounds s.solidified (show 0 ≤ maxWidth box by omega)
  have hletters := f.widthWithUpperLimit_bounds s.nonSolidified
    (show 0 ≤ maxWidth box - f.widthWithUpperLimit (maxWidth box) 0 s.solidified by omega)
  unfold textWidth
  dsimp only
  omega

theorem cursorInside_of_textWidth (hr : box.Roomy) (hc : box.cursorIndex = textWidth f s box) : box.CursorInside := by
  have hbounds := textWidth_bounds f s hr
  have hwide := hr.wide
  rw [← hc, maxWidth, Int.tdiv_eq_ediv_of_nonneg (by omega)] at hbounds
  exact ⟨hbounds.1, by omega⟩

/-- The text and the letters drawn over some pixels. -/
def ink (f : Font) (s : IMEState) (maxWidth : ℤ) (pixels : Pixels) : Pixels :=
  let solidifiedWidth := f.widthWithUpperLimit maxWidth 0 s.solidified
  let s₁ := (f.writeUTF32CharVecWithUpperLimit PrivilegedCursoredTextBox.inner pixels ⟨4, 6⟩ s.solidified (toColor 0)
    maxWidth).2
  (f.writeUTF32CharVecWithUpperLimit PrivilegedCursoredTextBox.inner s₁ ⟨4 + 8 * solidifiedWidth, 6⟩ s.nonSolidified
    (toColor 0xe916c3) (maxWidth - solidifiedWidth)).2

theorem pointwise_ink (f : Font) (s : IMEState) (maxWidth : ℤ) : Pointwise (ink f s maxWidth) :=
  (writes_inner.pointwise_writeUTF32 _ _ _ _ _).comp (writes_inner.pointwise_writeUTF32 _ _ _ _ _)

/-- The text box once the text and the letters are drawn. -/
theorem renderText_eq (f : Font) (s : IMEState) (box : PrivilegedCursoredTextBox) : renderText f s box =
    { box with
      pixels := ink f s (maxWidth box) ((box.clearTextWindow f).drawTextCursor false).pixels
      cursorIndex := textWidth f s box }.drawTextCursor true := by
  have htext := f.writeUTF32_width PrivilegedCursoredTextBox.inner ⟨4, 6⟩ (toColor 0) (maxWidth box)
    ((box.clearTextWindow f).drawTextCursor false).pixels 0 s.solidified
  unfold ink textWidth
  rw [← htext]
  exact congrArg
    (fun width : ℤ => PrivilegedCursoredTextBox.drawTextCursor { box with pixels := _, cursorIndex := _ + width } true)
    (f.writeUTF32_width PrivilegedCursoredTextBox.inner _ _ _ _ _ _)

/-- A character the text has no room for is not drawn. -/
theorem renderText_of_full {c : UInt32}
    (h : f.widthWithUpperLimit (maxWidth box) 0 (s.solidified ++ [c]) =
    f.widthWithUpperLimit (maxWidth box) 0 s.solidified) :
    renderText f { s with solidified := s.solidified ++ [c] } box = renderText f s box := by
  have hink : ink f { s with solidified := s.solidified ++ [c] } (maxWidth box) = ink f s (maxWidth box) := by
    funext pixels
    unfold ink Font.writeUTF32CharVecWithUpperLimit
    dsimp only
    rw [h, Font.writeUTF32_append_of_full h]
  have hwidth : textWidth f { s with solidified := s.solidified ++ [c] } box = textWidth f s box := by
    unfold textWidth
    dsimp only
    rw [h]
  rw [renderText_eq, renderText_eq, hink, hwidth]

theorem sameWindow_renderText (f : Font) (s : IMEState) (box : PrivilegedCursoredTextBox) :
    SameWindow box (renderText f s box) := by
  rw [renderText_eq]
  exact ⟨rfl, rfl, rfl⟩

theorem cursorIndex_renderText (f : Font) (s : IMEState) (box : PrivilegedCursoredTextBox) :
    (renderText f s box).cursorIndex = textWidth f s box := by
  rw [renderText_eq]
  rfl

/-- What is drawn before the candidates does not depend on what was drawn before, and where the cursor was. -/
theorem renderText_congr (h : SameWindow b b') (hr : b.Roomy) (hb : b.CursorInside) (hb' : b'.CursorInside)
    (s : IMEState) (hp : b.InWindow p) : (renderText f s b').pixels p = (renderText f s b).pixels p := by
  have hwidth : textWidth f s b' = textWidth f s b := by
    unfold textWidth
    rw [h.maxWidth_eq]
  have hclear : ((b'.clearTextWindow f).drawTextCursor false).pixels p =
      ((b.clearTextWindow f).drawTextCursor false).pixels p := by
    rw [PrivilegedCursoredTextBox.eraseCursor_clear (h.roomy hr) hb', PrivilegedCursoredTextBox.eraseCursor_clear hr hb,
      h.clear hp]
  have hink := pointwise_ink f s (maxWidth b) _ _ p hclear
  rw [renderText_eq, renderText_eq, PrivilegedCursoredTextBox.pixels_drawTextCursor,
    PrivilegedCursoredTextBox.pixels_drawTextCursor]
  dsimp only
  rw [hwidth, h.maxWidth_eq, hink]

/-- The place of the cursor is black once it is drawn. -/
theorem renderText_black
    (hp : (⟨⟨4 + 8 * textWidth f s box, 5⟩, ⟨7, 15⟩⟩ : Rectangle).Contains (p - kTopLeftMargin)) :
    (renderText f s box).pixels p = toColor 0 := by
  rw [renderText_eq, PrivilegedCursoredTextBox.pixels_drawTextCursor, if_pos hp]
  rfl

/-- `Render` reads the text and the letters, of the state, and nothing else before the candidates. -/
theorem renderText_state {s' : IMEState} (ht : s'.solidified = s.solidified) (hl : s'.nonSolidified = s.nonSolidified)
    (box : PrivilegedCursoredTextBox) : renderText f s' box = renderText f s box := by
  unfold renderText
  rw [ht, hl]

/-- The line of candidates drawn over some pixels. -/
def line (f : Font) (s : IMEState) (maxWidth : ℤ) (pixels : Pixels) : Pixels :=
  (f.writeUTF32StringWithUpperLimit PrivilegedCursoredTextBox.inner pixels ⟨4,
    6 + 17 + 2⟩ s.candidateDisplay (toColor 0)
    maxWidth).2

theorem pointwise_line (f : Font) (s : IMEState) (maxWidth : ℤ) : Pointwise (line f s maxWidth) :=
  writes_inner.pointwise_writeUTF32 _ _ _ _ _

/-- The line of candidates is below the cursor. -/
theorem line_above (hp : (p - kTopLeftMargin).y < 6 + 17 + 2) (pixels : Pixels) :
    line f s (maxWidth box) pixels p = pixels p := Font.writeUTF32_above writes_inner hp

theorem sameWindow_render (f : Font) (dict : List PekzepChar) (m : IME) (updated : Bool) :
    SameWindow m.box (m.render f dict updated).box := by
  obtain ⟨hsize, htitle, hmargin⟩ := sameWindow_renderText f m.state m.box
  exact ⟨hsize, htitle, hmargin⟩

theorem cursorIndex_render (m : IME) (updated : Bool) :
    (m.render f dict updated).box.cursorIndex = textWidth f m.state m.box := cursorIndex_renderText f m.state m.box

theorem pixels_render (m : IME) (updated : Bool) : (m.render f dict updated).box.pixels =
    line f (m.render f dict updated).state (maxWidth m.box) (renderText f m.state m.box).pixels := by
  rw [← (sameWindow_renderText f m.state m.box).maxWidth_eq]
  rfl

theorem render_text (f : Font) (dict : List PekzepChar) (m : IME) (updated : Bool) :
    (m.render f dict updated).state.solidified = m.state.solidified ∧
      (m.render f dict updated).state.nonSolidified = m.state.nonSolidified := by
  cases updated with
  | false => exact ⟨rfl, rfl⟩
  | true => simp

/-- The text takes the same columns after `Render`. -/
theorem textWidth_render (m : IME) (updated : Bool) :
    textWidth f (m.render f dict updated).state (m.render f dict updated).box = textWidth f m.state m.box := by
  obtain ⟨ht, hl⟩ := render_text f dict m updated
  unfold textWidth
  rw [(sameWindow_render f dict m updated).maxWidth_eq, ht, hl]

theorem cursorInside_render (hr : m.box.Roomy) (updated : Bool) : (m.render f dict updated).box.CursorInside :=
  cursorInside_of_textWidth ((sameWindow_render f dict m updated).roomy hr)
    ((cursorIndex_render m updated).trans (textWidth_render m updated).symm)

/-- **After a `Render`, the window shows what `Render` would draw.** -/
theorem render_coherent (hr : m.box.Roomy) (hc : m.box.CursorInside) (updated : Bool) :
    (m.render f dict updated).Coherent f dict := by
  have hsame := sameWindow_render f dict m updated
  obtain ⟨ht, hl⟩ := render_text f dict m updated
  refine ⟨?_, fun p hp => ?_⟩
  · rw [cursorIndex_render, textWidth_render, cursorIndex_render]
  · rw [pixels_render, pixels_render m updated, hsame.maxWidth_eq, render_state, if_neg Bool.false_ne_true,
      renderText_state ht hl]
    exact pointwise_line f _ _ _ _ p
      (renderText_congr hsame hr hc (cursorInside_render hr updated) m.state (hsame.inWindow.mp hp))

/-- After a `Render`, drawing the cursor once more changes nothing. -/
theorem drawTextCursor_render (m : IME) (updated : Bool) :
    (m.render f dict updated).box.drawTextCursor true = (m.render f dict updated).box := by
  have hpixels : ((m.render f dict updated).box.drawTextCursor true).pixels = (m.render f dict updated).box.pixels := by
    refine PrivilegedCursoredTextBox.drawTextCursor_of_black fun p hp => ?_
    rw [cursorIndex_render] at hp
    have habove : (p - kTopLeftMargin).y < 6 + 17 + 2 := by
      simp only [Rectangle.Contains] at hp
      omega
    rw [pixels_render, line_above habove, renderText_black hp]
  exact congrArg (fun pixels => { (m.render f dict updated).box with pixels := pixels }) hpixels

/-! ### Keys -/

/-- After a key that changes the state, the window shows what `Render` would draw. -/
def Displayed (f : Font) (dict : List PekzepChar) (m : IME) (k : Key) : Prop :=
  ∀ m', m.input f dict k = some m' → m'.state ≠ m.state → m'.Coherent f dict

/-- There is no room for a space typed when no letters are collected: with it the text takes no more
columns of the line than without. -/
def SpaceHidden (f : Font) (m : IME) (k : Key) : Prop :=
  k.unicode = 0x20 → m.state.nonSolidified = [] →
    f.widthWithUpperLimit (maxWidth m.box) 0 (m.state.solidified ++ [0x20]) =
      f.widthWithUpperLimit (maxWidth m.box) 0 m.state.solidified

/-- The cursor is where `Render` would draw it, and the window shows what it would draw, unless
there is nothing to show. -/
structure Shown (f : Font) (dict : List PekzepChar) (m : IME) : Prop where
  offers : m.state.Offers f dict
  roomy : m.box.Roomy
  cursor : m.box.cursorIndex = textWidth f m.state m.box
  coherent : (m.state.solidified = [] ∧ m.state.nonSolidified = []) ∨ m.Coherent f dict

namespace Shown

theorem cursorInside (h : m.Shown f dict) : m.box.CursorInside := cursorInside_of_textWidth h.roomy h.cursor

/-- A key that ends in a `Render`. -/
theorem render {s : IMEState} (hr : box.Roomy) (hc : box.CursorInside) {updated : Bool}
    (ho : (IME.render f dict ⟨s, box⟩ updated).state.Offers f dict) :
    (IME.render f dict ⟨s, box⟩ updated).Shown f dict where
  offers := ho
  roomy := (sameWindow_render f dict ⟨s, box⟩ updated).roomy hr
  cursor := (cursorIndex_render ⟨s, box⟩ updated).trans (textWidth_render ⟨s, box⟩ updated).symm
  coherent := .inr (render_coherent hr hc updated)

/-- A backspace that erases something. -/
theorem backspace_render (hs : m.state.nonSolidified ≠ [] ∨ m.state.solidified ≠ []) :
    ∃ s updated, m.backspace f dict = IME.render f dict ⟨s, m.box.drawTextCursor false⟩ updated := by
  unfold backspace
  simp only [Bool.not_eq_true', List.isEmpty_eq_false_iff]
  by_cases hn : m.state.nonSolidified = []
  · rw [if_neg (not_not_intro hn), if_pos (hs.resolve_left (not_not_intro hn)), drawTextCursor_render]
    exact ⟨_, false, rfl⟩
  · rw [if_pos hn, drawTextCursor_render]
    exact ⟨_, true, rfl⟩

/-- A key keeps the display right if it is not a space there is room for. -/
theorem input (h : m.Shown f dict) (hhidden : SpaceHidden f m k) (hm : m.input f dict k = some m') :
    m'.Shown f dict ∧ (m'.state ≠ m.state → m'.Coherent f dict) := by
  have ho := offers_input h.offers hm
  have hrender : ∀ {s : IMEState} {updated : Bool}, (IME.render f dict ⟨s, m.box⟩ updated).state.Offers f dict →
      (IME.render f dict ⟨s, m.box⟩ updated).Shown f dict ∧ (IME.render f dict ⟨s, m.box⟩ updated).Coherent f dict := by
    intro s updated ho
    exact ⟨.render h.roomy h.cursorInside ho, render_coherent (m := ⟨s, m.box⟩) h.roomy h.cursorInside updated⟩
  have hback : m.state.nonSolidified ≠ [] ∨ m.state.solidified ≠ [] → (m.backspace f dict).state.Offers f dict →
      (m.backspace f dict).Shown f dict ∧ (m.backspace f dict).Coherent f dict := by
    intro hs ho
    obtain ⟨s, updated, heq⟩ := backspace_render hs
    have hsame := SameWindow.drawTextCursor m.box false
    have hinside := hsame.cursorInside rfl h.cursorInside
    rw [heq] at ho ⊢
    exact ⟨.render (hsame.roomy h.roomy) hinside ho,
      render_coherent (m := ⟨s, m.box.drawTextCursor false⟩) (hsame.roomy h.roomy) hinside updated⟩
  cases reacts h.offers hm with
  | ignored => exact ⟨h, fun hne => absurd rfl hne⟩
  | choose i h0 hi => exact ⟨(hrender ho).1, fun _ => (hrender ho).2⟩
  | eraseLetter hn => exact ⟨(hback (.inl hn) ho).1, fun _ => (hback (.inl hn) ho).2⟩
  | eraseText hn hs => exact ⟨(hback (.inr hs) ho).1, fun _ => (hback (.inr hs) ho).2⟩
  | nothingToErase hn hs =>
    have hstate : (m.backspace f dict).state = m.state := by
      rw [backspace_state, if_neg (not_not_intro hn), hs, List.dropLast_nil, ← hs]
    have hbox : (m.backspace f dict).box = (m.box.drawTextCursor false).drawTextCursor true := by
      unfold backspace
      simp [hn, hs]
    have hsame : SameWindow m.box (m.backspace f dict).box :=
      hbox ▸ (SameWindow.drawTextCursor m.box false).trans (.drawTextCursor _ true)
    refine ⟨⟨ho, hsame.roomy h.roomy, ?_, .inl ?_⟩, fun hne => absurd hstate hne⟩
    · rw [hstate, textWidth, hsame.maxWidth_eq, hbox]
      exact h.cursor
    · rw [hstate]
      exact ⟨hs, hn⟩
  | letter => exact ⟨(hrender ho).1, fun _ => (hrender ho).2⟩
  | space hk hn =>
    have hfull := hhidden hk hn
    have hcoherent : m.Coherent f dict := by
      refine h.coherent.resolve_left fun hempty => ?_
      -- A space has room in an empty line.
      have hmax := maxWidth_nonneg h.roomy
      have hcolumns := f.columns_pos 0x20
      have hle : f.columns 0x20 ≤ 2 := by
        unfold Font.columns
        split <;> decide
      rw [hempty.1] at hfull
      simp only [List.nil_append, Font.widthWithUpperLimit] at hfull
      rw [if_neg (by omega)] at hfull
      omega
    have hbox : (IME.render f dict { m with state.solidified := m.state.solidified ++ [0x20] } false).box =
        (IME.render f dict m false).box := by
      have htext := renderText_of_full hfull
      unfold IME.render
      dsimp only
      rw [htext]
      rfl
    have hsame : { m with state.solidified := m.state.solidified ++ [0x20] }.Coherent f dict := by
      unfold Coherent
      rw [hbox]
      exact hcoherent
    refine ⟨⟨ho, h.roomy, ?_, .inr hsame⟩, fun _ => hsame⟩
    rw [textWidth]
    dsimp only
    rw [hfull]
    exact h.cursor
  | confirm c hn hc => exact ⟨(hrender ho).1, fun _ => (hrender ho).2⟩

/-- A space there is room for is not displayed. -/
theorem spaceHidden (h : m.Shown f dict) (hd : m.Displayed f dict k) : SpaceHidden f m k := by
  intro hk hn
  have hcandidates := h.offers.candidates_eq_nil hn
  have hm : m.input f dict k = some { m with state.solidified := m.state.solidified ++ [0x20] } := by
    simp [IME.input, space, hk, hn, hcandidates]
  have hne : { m.state with solidified := m.state.solidified ++ [0x20] } ≠ m.state := by
    intro heq
    simpa using congrArg IMEState.solidified heq
  have hcursor := (hd _ hm hne).1
  rw [cursorIndex_render, h.cursor, textWidth, textWidth, hn] at hcursor
  simpa [Font.widthWithUpperLimit] using hcursor

/-- One key. -/
theorem displayed_key (h : m.Shown f dict) : m.Displayed f dict k ↔ SpaceHidden f m k :=
  ⟨h.spaceHidden, fun hhidden _ hm => (h.input hhidden hm).2⟩

end Shown

/-- The text box of the input method, with anything drawn in it. Its `cursor_index` is not set before the
first `Render`: it is what the stack of the kernel, a zeroed array, holds there. -/
def pekzepTextWindow (pixels : Pixels) : PrivilegedCursoredTextBox where
  size := ⟨368, 70⟩
  title := "pergvirle'i slahurfaesal".toList.map fun c => c.val
  pixels := pixels
  cursorIndex := 0
  bottomAdditionalMargin := 18

theorem shown_initial (f : Font) (dict : List PekzepChar) (pixels : Pixels) :
    Shown f dict ⟨IMEState.initial, pekzepTextWindow pixels⟩ where
  offers := .initial
  roomy := ⟨show (32 : ℤ) ≤ 360 by decide, show (21 : ℤ) ≤ 24 by decide⟩
  cursor := rfl
  coherent := .inl ⟨rfl, rfl⟩

/-- **The window shows the state after every key that changes it**, exactly when no space is typed in a
line with room for it while no letters are collected. -/
theorem displayed_iff (f : Font) (dict : List PekzepChar) (pixels : Pixels) (keys : List Key) :
    Along (input f dict) (Displayed f dict) ⟨IMEState.initial, pekzepTextWindow pixels⟩ keys ↔
      Along (input f dict) (SpaceHidden f) ⟨IMEState.initial, pekzepTextWindow pixels⟩ keys :=
  Along.congr (fun _ _ h => h.displayed_key) (fun _ _ _ h hhidden hm => (h.input hhidden hm).1)
    (shown_initial f dict pixels)

/-- A space typed first is put behind the text and not displayed. -/
theorem space_not_displayed : ∃ (f : Font) (dict : List PekzepChar) (pixels : Pixels) (k : Key) (m : IME),
    run (input f dict) ⟨IMEState.initial, pekzepTextWindow pixels⟩ [k] = some m ∧ m.state.solidified = [0x20] ∧
      ¬ m.Coherent f dict :=
  ⟨oneGlyph, oneEntry, fun _ => ⟨0, 0, 0⟩, typed 0x20, _, rfl, rfl,
    fun h => absurd h.1 (by rw [cursorIndex_render]; decide)⟩

end IME

end DuvuvurKernel
