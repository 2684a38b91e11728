import DuvuvurKernel.Graphics.FrameBuffer
import DuvuvurKernel.Lang.Font

/-!
# Windows with a title bar

`window.cpp`: the regions of a `ToplevelWindow`, its frame, its title bar and the text
box drawn inside it; `font.cpp`: text drawn up to a width; and `cursored_textbox.cpp`, the
text box with a cursor.

## The model

The pixels of a window are a function of the position, and a drawing operation a
function of the pixels. Only windows with `is_privileged` are drawn here, and only with
`active` false, which is how `DrawWindow` draws the title. A title is given by its
characters: how `WriteUTF8String` finds them is in `DuvuvurKernel.Terminal.Strings`.

**Results.** A privileged window has no close button (`getWindowRegion_privileged`).
-/

namespace DuvuvurKernel

/-- The pixels of a window. -/
abbrev Pixels := Vector2D → PixelColor

/-- `Writer` of a window. -/
def windowWriter : PixelWriter Pixels := ⟨fun s pos c => Function.update s pos c⟩

/-- `WindowRegion`. -/
inductive WindowRegion where
  | titleBar
  | closeButton
  | border
  | other
  deriving DecidableEq, Repr

namespace ToplevelWindow

/-- `kTopLeftMargin`. -/
def kTopLeftMargin : Vector2D := ⟨4, 24⟩

/-- `kBottomRightMargin`. -/
def kBottomRightMargin : Vector2D := ⟨4, 4⟩

/-- `kCloseButtonWidth`. -/
def kCloseButtonWidth : ℤ := 36

/-- `kCloseButtonHeight`. -/
def kCloseButtonHeight : ℤ := 15

/-- `ToplevelWindow::GetWindowRegion`, of a window of the given size. -/
def getWindowRegion (size : Vector2D) (isPrivileged : Bool) (pos : Vector2D) : WindowRegion :=
  if pos.x < 2 ∨ size.x - 2 ≤ pos.x ∨ pos.y < 2 ∨ size.y - 2 ≤ pos.y then .border
  else if pos.y < kTopLeftMargin.y then
    if size.x - 5 - kCloseButtonWidth ≤ pos.x ∧ pos.x < size.x - 5 ∧
        5 ≤ pos.y ∧ pos.y < 5 + kCloseButtonHeight then
      if isPrivileged then .titleBar else .closeButton
    else .titleBar
  else .other

/-- No position of a privileged window is on a close button. -/
theorem getWindowRegion_privileged (size pos : Vector2D) : getWindowRegion size true pos ≠ .closeButton := by
  unfold getWindowRegion
  simp only [if_true]
  split_ifs
  all_goals simp

/-- `InnerSize`. -/
def innerSize (size : Vector2D) : Vector2D := size - kTopLeftMargin - kBottomRightMargin

variable {σ : Type} (w : PixelWriter σ) (f : Font)

/-- `InnerWriter`. -/
def innerWriter : PixelWriter σ := ⟨fun s pos c => w.write s (pos + kTopLeftMargin) c⟩

/-- A call of `fill_rect`: the position, the size and the colour. -/
abbrev Fill := Vector2D × Vector2D × UInt32

/-- Calls of `fill_rect`, one after the other. -/
def fillRects (s : σ) (fills : List Fill) : σ :=
  fills.foldl (fun s r => w.fillRectangle s r.1 r.2.1 (toColor r.2.2)) s

/-- The rectangles of `DrawTextbox`. -/
def textboxFills (pos size : Vector2D) : List Fill :=
  [(pos + ⟨1, 1⟩, size - ⟨2, 2⟩, 0xffffff),
   (pos, ⟨size.x, 1⟩, 0x848484),
   (pos, ⟨1, size.y⟩, 0x848484),
   (pos + ⟨0, size.y⟩, ⟨size.x, 1⟩, 0xc6c6c6),
   (pos + ⟨size.x, 0⟩, ⟨1, size.y⟩, 0xc6c6c6)]

/-- `DrawTextbox`. -/
def drawTextbox (s : σ) (pos size : Vector2D) : σ := fillRects w s (textboxFills pos size)

/-- `WriteUTF8String`, of a string given by its characters. -/
def writeText (s : σ) (pos : Vector2D) (text : List UInt32) (color : PixelColor) : ℤ × σ :=
  text.foldl (f.drawUTF8 w pos color) (0, s)

/-- `DrawWindowTitle`, with `active` false and the window privileged. -/
def drawWindowTitle (s : σ) (size : Vector2D) (title : List UInt32) : σ :=
  let s := w.fillRectangle s ⟨3, 3⟩ ⟨size.x - 6, 18⟩ (toColor 0x848484)
  let s := (writeText w f s ⟨24, 4⟩ title (toColor 0xffffff)).2
  (writeText w f s ⟨size.x - 5 - kCloseButtonWidth, 4⟩ [0x5e38, 0x5728] (toColor 0xffffff)).2

/-- The rectangles of `DrawWindow`. -/
def windowFills (size : Vector2D) : List Fill :=
  [(⟨0, 0⟩, ⟨size.x, 1⟩, 0xc6c6c6),
   (⟨1, 1⟩, ⟨size.x - 2, 1⟩, 0xffffff),
   (⟨0, 0⟩, ⟨1, size.y⟩, 0xc6c6c6),
   (⟨1, 1⟩, ⟨1, size.y - 2⟩, 0xffffff),
   (⟨size.x - 2, 1⟩, ⟨1, size.y - 2⟩, 0x848484),
   (⟨size.x - 1, 0⟩, ⟨1, size.y⟩, 0x000000),
   (⟨2, 2⟩, ⟨size.x - 4, size.y - 4⟩, 0xc6c6c6),
   (⟨1, size.y - 2⟩, ⟨size.x - 2, 1⟩, 0x848484),
   (⟨0, size.y - 1⟩, ⟨size.x, 1⟩, 0x000000)]

/-- `DrawWindow`, of a privileged window. -/
def drawWindow (s : σ) (size : Vector2D) (title : List UInt32) : σ :=
  drawWindowTitle w f (fillRects w s (windowFills size)) size title

end ToplevelWindow

/-! ### Text up to a width -/

namespace Font

variable {σ : Type} (w : PixelWriter σ) (f : Font)

/-- The loop of `WriteUTF32CharVecWithUpperLimit` and `WriteUTF32StringWithUpperLimit`, entered
with `x`: it stops at the first character that does not fit. -/
def writeUTF32WithUpperLimit (pos : Vector2D) (color : PixelColor) (maxWidth : ℤ) :
    σ → ℤ → List UInt32 → ℤ × σ
  | s, x, [] => (x, s)
  | s, x, c :: cs =>
    let newX := x + f.columns c
    if newX > maxWidth then (x, s)
    else writeUTF32WithUpperLimit pos color maxWidth
      (f.writeUnicodeChar w s (pos + ⟨8 * x, 0⟩) c color) newX cs

/-- `WriteUTF32CharVecWithUpperLimit`. -/
def writeUTF32CharVecWithUpperLimit (s : σ) (pos : Vector2D) (vec : List UInt32) (color : PixelColor)
    (maxWidth : ℤ) : ℤ × σ := f.writeUTF32WithUpperLimit w pos color maxWidth s 0 vec

/-- `WriteUTF32StringWithUpperLimit`, of the characters before the terminator. -/
def writeUTF32StringWithUpperLimit (s : σ) (pos : Vector2D) (str : List UInt32) (color : PixelColor)
    (maxWidth : ℤ) : ℤ × σ := f.writeUTF32WithUpperLimit w pos color maxWidth s 0 str

/-- The columns text takes where there is room for `maxWidth`, entered with `x`. -/
def widthWithUpperLimit (maxWidth : ℤ) : ℤ → List UInt32 → ℤ
  | x, [] => x
  | x, c :: cs =>
    let newX := x + f.columns c
    if newX > maxWidth then x else widthWithUpperLimit maxWidth newX cs

end Font

end DuvuvurKernel
