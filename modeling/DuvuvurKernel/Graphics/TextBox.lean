import DuvuvurKernel.Graphics.ToplevelWindow

/-!
# Text boxes with a cursor

`cursored_textbox.cpp`: the window of a text box, its cursor, and how the window is
cleared.

## The model

The pixels that matter are those of the window (`InWindow`); what is written outside of
it is another matter. The members for the timer of the cursor are left out.

**Results.** After `ClearTextWindow` a pixel of the window does not depend on what was
drawn before (`clearTextWindow_covers`), and the inside of the text box is white, so that
erasing the cursor there changes nothing (`eraseCursor_clear`).
-/

namespace DuvuvurKernel

open Lib.Painting ToplevelWindow

/-- `PrivilegedCursoredTextBox`. -/
structure PrivilegedCursoredTextBox where
  /-- `text_window->Size()`. -/
  size : Vector2D
  /-- `text_window->title_`. -/
  title : List UInt32
  /-- What is drawn in `text_window`. -/
  pixels : Pixels
  /-- `cursor_index`. -/
  cursorIndex : ℤ
  /-- `bottom_additional_margin`. -/
  bottomAdditionalMargin : ℤ

namespace PrivilegedCursoredTextBox

variable (f : Font) (box : PrivilegedCursoredTextBox)

/-- `text_window->InnerSize()`. -/
def innerSize : Vector2D := ToplevelWindow.innerSize box.size

/-- `InnerWriter` of a window. -/
def inner : PixelWriter Pixels := innerWriter windowWriter

/-- `ClearTextWindow`. -/
def clearTextWindow : PrivilegedCursoredTextBox :=
  let s := drawWindow windowWriter f box.pixels box.size box.title
  { box with pixels := drawTextbox inner s ⟨0, 0⟩ (box.innerSize - ⟨0, box.bottomAdditionalMargin⟩) }

/-- `DrawTextCursor`. -/
def drawTextCursor (visible : Bool) : PrivilegedCursoredTextBox :=
  let color := if visible then toColor 0 else toColor 0xffffff
  { box with pixels := inner.fillRectangle box.pixels ⟨4 + 8 * box.cursorIndex, 5⟩ ⟨7, 15⟩ color }

/-- A position in the window. -/
def InWindow (p : Vector2D) : Prop := (⟨⟨0, 0⟩, box.size⟩ : Rectangle).Contains p

end PrivilegedCursoredTextBox

/-! ### Drawing through a window -/

/-- A writer that changes, by one `Write`, the pixel at one place. -/
structure Writes (w : PixelWriter Pixels) (at' : Vector2D → Vector2D) : Prop where
  write : ∀ s q c p, w.write s q c p = if at' p = q then c else s p

theorem writes_window : Writes windowWriter fun p => p := ⟨fun s q c p => Function.update_apply s q c p⟩

theorem writes_inner : Writes (innerWriter windowWriter) fun p => p - kTopLeftMargin := by
  refine ⟨fun s q c p => ?_⟩
  have hiff : p = q + kTopLeftMargin ↔ p - kTopLeftMargin = q := by
    simp only [Vector2D.ext_iff, Vector2D.add_x, Vector2D.add_y, Vector2D.sub_x, Vector2D.sub_y]
    omega
  have hupd : (innerWriter windowWriter).write s q c p = if p = q + kTopLeftMargin then c else s p :=
    Function.update_apply s (q + kTopLeftMargin) c p
  simp only [hupd, hiff]

namespace Writes

variable {w : PixelWriter Pixels} {at' : Vector2D → Vector2D} {f : Font}

theorem writeAll (h : Writes w at') (s : Pixels) (ps : List Vector2D) (c : PixelColor) (p : Vector2D) :
    w.writeAll s ps c p = if at' p ∈ ps then c else s p := by
  induction ps generalizing s with
  | nil => simp [PixelWriter.writeAll]
  | cons q ps ih =>
    have hstep : w.writeAll s (q :: ps) c = w.writeAll (w.write s q c) ps c := rfl
    rw [hstep, ih, h.write]
    by_cases hq : at' p = q
    · simp [hq]
    · simp [hq]

theorem fillRectangle (h : Writes w at') (s : Pixels) (pos size : Vector2D) (c : PixelColor) (p : Vector2D) :
    w.fillRectangle s pos size c p = if (⟨pos, size⟩ : Rectangle).Contains (at' p) then c else s p := by
  rw [PixelWriter.fillRectangle, h.writeAll]
  simp only [PixelWriter.mem_rectangle ⟨pos, size⟩]

theorem pointwise_writeAll (h : Writes w at') (ps : List Vector2D) (c : PixelColor) :
    Pointwise fun s => w.writeAll s ps c := by
  intro s s' p hp
  simp only [h.writeAll, hp]

theorem pointwise_fillRectangle (h : Writes w at') (pos size : Vector2D) (c : PixelColor) :
    Pointwise fun s => w.fillRectangle s pos size c := h.pointwise_writeAll _ c

theorem pointwise_fillRects (h : Writes w at') (fills : List Fill) : Pointwise fun s => fillRects w s fills :=
  Pointwise.foldl fun r _ => h.pointwise_fillRectangle r.1 r.2.1 (toColor r.2.2)

/-- What rectangles drawn one after the other cover. -/
theorem fillRects_covers (h : Writes w at') {fills : List Fill} {p : Vector2D}
    (hp : ∃ r ∈ fills, (⟨r.1, r.2.1⟩ : Rectangle).Contains (at' p)) (s s' : Pixels) :
    fillRects w s fills p = fillRects w s' fills p := by
  induction fills generalizing s s' with
  | nil =>
    obtain ⟨r, hr, -⟩ := hp
    cases hr
  | cons r fills ih =>
    by_cases hr : (⟨r.1, r.2.1⟩ : Rectangle).Contains (at' p)
    · refine h.pointwise_fillRects fills _ _ p ?_
      simp only [h.fillRectangle, if_pos hr]
    · obtain ⟨r', hr', hc⟩ := hp
      refine ih ⟨r', ?_, hc⟩ _ _
      rcases List.mem_cons.mp hr' with rfl | hmem
      · exact absurd hc hr
      · exact hmem

theorem pointwise_writeText (h : Writes w at') (pos : Vector2D) (text : List UInt32) (color : PixelColor) :
    Pointwise fun s => (writeText w f s pos text color).2 := by
  have hloop : ∀ (x : ℤ), Pointwise fun s => (text.foldl (f.drawUTF8 w pos color) (x, s)).2 := by
    induction text with
    | nil => exact fun _ => Pointwise.id
    | cons c text ih => exact fun x => (ih _).comp (h.pointwise_writeAll _ color)
  exact hloop 0

theorem pointwise_drawWindowTitle (h : Writes w at') (size : Vector2D) (title : List UInt32) :
    Pointwise fun s => drawWindowTitle w f s size title :=
  (h.pointwise_writeText _ _ _).comp
    ((h.pointwise_writeText _ _ _).comp (h.pointwise_fillRectangle _ _ _))

theorem pointwise_writeUTF32 (h : Writes w at') (pos : Vector2D) (color : PixelColor) (maxWidth x : ℤ)
    (text : List UInt32) : Pointwise fun s => (f.writeUTF32WithUpperLimit w pos color maxWidth s x text).2 := by
  induction text generalizing x with
  | nil => exact Pointwise.id
  | cons c text ih =>
    intro s s' p hp
    simp only [Font.writeUTF32WithUpperLimit]
    split
    · exact hp
    · exact ih _ _ _ p (h.pointwise_writeAll _ color s s' p hp)

end Writes

/-! ### Clearing -/

namespace PrivilegedCursoredTextBox

variable {f : Font} {box : PrivilegedCursoredTextBox} {p : Vector2D}

/-- The pixels `DrawTextCursor` changes. -/
theorem pixels_drawTextCursor (visible : Bool) : (box.drawTextCursor visible).pixels p =
    if (⟨⟨4 + 8 * box.cursorIndex, 5⟩, ⟨7, 15⟩⟩ : Rectangle).Contains (p - kTopLeftMargin) then
      (if visible then toColor 0 else toColor 0xffffff) else box.pixels p := by
  unfold drawTextCursor inner
  exact writes_inner.fillRectangle ..

/-- The rectangles of `DrawWindow` cover the window. -/
theorem windowFills_cover {size : Vector2D} (h : (⟨⟨0, 0⟩, size⟩ : Rectangle).Contains p) :
    ∃ r ∈ windowFills size, (⟨r.1, r.2.1⟩ : Rectangle).Contains p := by
  simp only [Rectangle.Contains] at h
  simp only [windowFills, List.mem_cons, List.not_mem_nil, or_false, exists_eq_or_imp, exists_eq_left,
    Rectangle.Contains]
  omega

/-- **`ClearTextWindow` forgets what was drawn.** -/
theorem clearTextWindow_covers (hp : box.InWindow p) (s : Pixels) :
    (box.clearTextWindow f).pixels p = ({ box with pixels := s }.clearTextWindow f).pixels p := by
  have hcover := writes_window.fillRects_covers (windowFills_cover hp) box.pixels s
  have htitle := writes_window.pointwise_drawWindowTitle (f := f) box.size box.title _ _ p hcover
  exact writes_inner.pointwise_fillRects _ _ _ p htitle

/-- The text box is wide enough for a character, and high enough for its cursor. -/
structure Roomy (box : PrivilegedCursoredTextBox) : Prop where
  wide : 32 ≤ box.innerSize.x
  high : 21 ≤ box.innerSize.y - box.bottomAdditionalMargin

/-- Inside its border the text box is white. -/
theorem clearTextWindow_white
    (hp : (⟨⟨1, 1⟩, ⟨box.innerSize.x - 2, box.innerSize.y - box.bottomAdditionalMargin - 2⟩⟩ : Rectangle).Contains
      (p - kTopLeftMargin)) : (box.clearTextWindow f).pixels p = toColor 0xffffff := by
  simp only [clearTextWindow, drawTextbox, inner, textboxFills, fillRects, List.foldl_cons, List.foldl_nil,
    writes_inner.fillRectangle]
  -- Of the five rectangles the four border lines do not reach inside.
  rw [if_neg, if_neg, if_neg, if_neg, if_pos]
  all_goals
    simp only [Rectangle.Contains, Vector2D.add_x, Vector2D.add_y, Vector2D.sub_x, Vector2D.sub_y] at hp ⊢
    omega

/-- The place of the cursor lies inside the text box. -/
structure CursorInside (box : PrivilegedCursoredTextBox) : Prop where
  nonneg : 0 ≤ box.cursorIndex
  fits : 8 * box.cursorIndex + 16 ≤ box.innerSize.x

/-- Erasing the cursor leaves a cleared text box as it is. -/
theorem eraseCursor_clear (hr : box.Roomy) (hc : box.CursorInside) :
    ((box.clearTextWindow f).drawTextCursor false).pixels p = (box.clearTextWindow f).pixels p := by
  rw [pixels_drawTextCursor]
  split
  next hin =>
    refine (clearTextWindow_white ?_).symm
    obtain ⟨hwide, hhigh⟩ := hr
    obtain ⟨hnonneg, hfits⟩ := hc
    have hindex : (box.clearTextWindow f).cursorIndex = box.cursorIndex := rfl
    simp only [Rectangle.Contains, hindex] at hin ⊢
    omega
  next => rfl

/-- Drawing the cursor over the cursor changes nothing. -/
theorem drawTextCursor_of_black
    (h : ∀ p, (⟨⟨4 + 8 * box.cursorIndex, 5⟩, ⟨7, 15⟩⟩ : Rectangle).Contains (p - kTopLeftMargin) →
      box.pixels p = toColor 0) : (box.drawTextCursor true).pixels = box.pixels := by
  funext p
  rw [pixels_drawTextCursor]
  split
  next hin => exact (h p hin).symm
  next => rfl

end PrivilegedCursoredTextBox

end DuvuvurKernel
