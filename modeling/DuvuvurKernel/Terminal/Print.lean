import DuvuvurKernel.Lang.Font

/-!
# What a terminal prints

`Terminal::Print`, for one character and for a string, and what it draws with:
`DrawCursor`, `CalcCursorPos` and `Scroll1`.

## The model

A terminal is its cursor, whether it shows a window, and the state `σ` of that
window, on which a `TerminalWindow` writes and moves. The message with which
`Print` has the drawn area redrawn is left out: it reads nothing of the string.
-/

namespace DuvuvurKernel

open Lib.Loops

/-- The members of `Terminal` that `Print` reads and writes. -/
structure Terminal (σ : Type) where
  /-- `cursor_`. -/
  cursor : Vector2D
  /-- `show_window_`. -/
  showWindow : Bool
  /-- `window_`. -/
  window : σ

/-- The window of a terminal: its `Writer`, and `Move`. -/
structure TerminalWindow (σ : Type) extends PixelWriter σ where
  /-- `Move`: the destination, and the position and the size of the source. -/
  move : σ → Vector2D → Vector2D → Vector2D → σ

namespace Terminal

/-- `kRows`. -/
def kRows : ℤ := 17

/-- `kColumns`. -/
def kColumns : ℤ := 48

/-- `kTopLeftMargin`. -/
def kTopLeftMargin : Vector2D := ⟨4, 24⟩

variable {σ : Type} (w : TerminalWindow σ) (f : Font)

/-- `InnerWriter`. -/
def innerWriter : PixelWriter σ := ⟨fun s pos c => w.write s (pos + kTopLeftMargin) c⟩

/-- `CalcCursorPos`. -/
def calcCursorPos (t : Terminal σ) : Vector2D :=
  kTopLeftMargin + ⟨4 + 8 * t.cursor.x, 4 + 16 * t.cursor.y⟩

/-- `DrawCursor`. -/
def drawCursor (t : Terminal σ) (visible : Bool) : Terminal σ :=
  if t.showWindow then
    let color := if visible then toColor 0xffffff else toColor 0
    { t with window := w.fillRectangle t.window t.calcCursorPos ⟨7, 15⟩ color }
  else t

/-- `Scroll1`. -/
def scroll1 (t : Terminal σ) : Terminal σ :=
  let s := w.move t.window (kTopLeftMargin + ⟨4, 4⟩) (kTopLeftMargin + ⟨4, 4 + 16⟩)
    ⟨8 * kColumns, 16 * (kRows - 1)⟩
  { t with window := (innerWriter w).fillRectangle s ⟨4, 4 + 16 * t.cursor.y⟩ ⟨8 * kColumns, 16⟩ ⟨0, 0, 0⟩ }

/-- The lambda `newline` of `Print(char32_t)`. -/
def newline (t : Terminal σ) : Terminal σ :=
  let t := { t with cursor := ⟨0, t.cursor.y⟩ }
  if t.cursor.y < kRows - 1 then { t with cursor := ⟨t.cursor.x, t.cursor.y + 1⟩ } else t.scroll1 w

/-- `WriteUnicodeChar` at the cursor, which then moves by `columns`. -/
def putChar (t : Terminal σ) (c : UInt32) (columns : ℤ) : Terminal σ :=
  { t with window := f.writeUnicodeChar w.toPixelWriter t.window t.calcCursorPos c ⟨255, 255, 255⟩,
           cursor := ⟨t.cursor.x + columns, t.cursor.y⟩ }

/-- `Print(char32_t)`. -/
def printChar (t : Terminal σ) (c : UInt32) : Terminal σ :=
  if !t.showWindow then t
  else if c = 0x0a then t.newline w
  else if f.isHankaku c then
    (if t.cursor.x = kColumns then t.newline w else t).putChar w f c 1
  else (if t.cursor.x ≥ kColumns - 1 then t.newline w else t).putChar w f c 2

/-- `len_`: the most `size_t` there is when no length is given. -/
def lenOrMax (len : Option ℕ) : ℕ := len.getD (2 ^ 64 - 1)

/-- `Print(const char*, std::optional<size_t>)` returns: the offset it stops at, and the terminal. -/
def Print (t : Terminal σ) (s : Bytes) (len : Option ℕ) : ℕ × Terminal σ → Prop
  | (i, t') => ∃ t₁, Returns (stringLoop (fun i => i < lenOrMax len) (printChar w f) s)
      (0, t.drawCursor w false) (i, t₁) ∧ t' = t₁.drawCursor w true

end Terminal

end DuvuvurKernel
