import DuvuvurKernel.Graphics.FrameBuffer
import DuvuvurKernel.Terminal.Print

/-!
# The keyboard of a terminal

`Terminal::InputKey` with the line that is typed, its history (`HistoryUpDown`), and the
whole of `Terminal::Print`, with the message that has the drawn area redrawn.

## The model

To the terminal of `DuvuvurKernel.Terminal.Print` come the members for the line. What a
terminal draws on is a state `σ`, with what reading `window_` and `layer_id_` does to it:
nothing where they are set. A line of the history is drawn character by character: it is
made of ASCII characters, which are one byte each.

Between the two halves of an Enter key (`enter`, and the prompt) the command line is
executed.
-/

namespace DuvuvurKernel

/-- A terminal's window, and the variables that refer to it. -/
structure TerminalScreen (σ : Type) extends TerminalWindow σ where
  /-- `window_` is followed, for the size of the window. -/
  readWindow : σ → σ
  /-- `layer_id_` is read. -/
  readLayerID : σ → σ

/-- The members of `Terminal` that `InputKey` reads and writes. -/
structure LineTerminal (σ : Type) extends Terminal σ where
  /-- `linebuf_`. -/
  linebuf : ℕ → UInt8
  /-- `linebuf_index_`. -/
  linebufIndex : ℕ
  /-- `cmd_history_`. -/
  cmdHistory : List (ℕ → UInt8)
  /-- `cmd_history_index_`. -/
  cmdHistoryIndex : ℤ

namespace LineTerminal

/-- `kLineMax`. -/
def kLineMax : ℕ := 128

variable {σ : Type} (w : TerminalScreen σ) (f : Font) (t : LineTerminal σ)

/-- The terminal with what it is drawn on after an operation. -/
def onScreen (g : σ → σ) : LineTerminal σ := { t with window := g t.window }

/-- `DrawCursor`. -/
def drawCursor (visible : Bool) : LineTerminal σ :=
  { t with toTerminal := t.toTerminal.drawCursor w.toTerminalWindow visible }

/-- `Print(char32_t)`. -/
def printChar (c : UInt32) : LineTerminal σ :=
  { t with toTerminal := t.toTerminal.printChar w.toTerminalWindow f c }

/-- `Print(const char*)`, of a string of the given characters. -/
def printText (text : List UInt32) : LineTerminal σ :=
  let t := t.drawCursor w false
  let t := text.foldl (fun t c => t.printChar w f c) t
  let t := t.drawCursor w true
  (t.onScreen w.readWindow).onScreen w.readLayerID

/-- `InnerSize` of the window. -/
def innerSize : Vector2D := ⟨Terminal.kColumns * 8 + 8, Terminal.kRows * 16 + 8⟩

/-! ### `InputKey` -/

/-- The first half of an Enter key, up to `ExecuteLine`. -/
def enter : LineTerminal σ :=
  let linebuf := Function.update t.linebuf t.linebufIndex 0
  { t with
    toTerminal := t.toTerminal.newline w.toTerminalWindow
    linebuf := linebuf
    linebufIndex := 0
    cmdHistory := if t.linebufIndex > 0 then linebuf :: t.cmdHistory.dropLast else t.cmdHistory
    cmdHistoryIndex := -1 }

/-- The backspace key, and the position to redraw. -/
def backspace (drawArea : Rectangle) : LineTerminal σ × Rectangle :=
  if t.cursor.x > 0 then
    let t := { t with cursor := ⟨t.cursor.x - 1, t.cursor.y⟩ }
    let t := if t.showWindow then
        t.onScreen fun s => w.fillRectangle s t.toTerminal.calcCursorPos ⟨8, 16⟩ ⟨0, 0, 0⟩
      else t
    ({ t with linebufIndex := t.linebufIndex - 1 }, ⟨t.toTerminal.calcCursorPos, drawArea.size⟩)
  else (t, drawArea)

/-- A key for a character. -/
def type (unicode : UInt32) : LineTerminal σ :=
  if t.cursor.x < Terminal.kColumns - 1 ∧ t.linebufIndex < kLineMax - 1 then
    let t := { t with
      linebuf := Function.update t.linebuf t.linebufIndex unicode.toUInt8
      linebufIndex := t.linebufIndex + 1 }
    let t := if t.showWindow then
        t.onScreen fun s => f.writeUnicodeChar w.toPixelWriter s t.toTerminal.calcCursorPos unicode ⟨255, 255, 255⟩
      else t
    { t with cursor := ⟨t.cursor.x + 1, t.cursor.y⟩ }
  else t

/-- The characters of a line, up to its terminator. -/
def line (buf : ℕ → UInt8) : List UInt8 := ((List.range kLineMax).map buf).takeWhile fun c => c ≠ 0

/-- `cmd_history_index_` after `HistoryUpDown` has moved it. -/
def nextHistoryIndex (direction : ℤ) : ℤ :=
  if direction = -1 ∧ t.cmdHistoryIndex ≥ 0 then t.cmdHistoryIndex - 1
  else if direction = 1 ∧ t.cmdHistoryIndex + 1 < t.cmdHistory.length then t.cmdHistoryIndex + 1
  else t.cmdHistoryIndex

/-- The line that `HistoryUpDown` recalls. -/
def recalled (direction : ℤ) : List UInt8 :=
  let index := t.nextHistoryIndex direction
  if index ≥ 0 then line (t.cmdHistory.getD index.toNat fun _ => 0) else []

/-- `strcpy`, of a string without its terminator. -/
def strcpy (dst : ℕ → UInt8) (src : List UInt8) : ℕ → UInt8 := fun i =>
  if i ≤ src.length then src.getD i 0 else dst i

/-- `WriteUTF8String` on a window, of ASCII characters. -/
def writeLine (s : σ) (pos : Vector2D) (text : List UInt8) (color : PixelColor) : σ :=
  ((text.map UInt8.toUInt32).foldl (f.drawUTF8 w.toPixelWriter pos color) (0, s)).2

/-- `HistoryUpDown`. -/
def historyUpDown (direction : ℤ) : LineTerminal σ × Rectangle :=
  let history := t.recalled direction
  let t := { t with cmdHistoryIndex := t.nextHistoryIndex direction, cursor := ⟨1, t.cursor.y⟩ }
  let firstPos := t.toTerminal.calcCursorPos
  let drawArea : Rectangle := ⟨firstPos, ⟨8 * (Terminal.kColumns - 1), 16⟩⟩
  let t := t.onScreen fun s => w.fillRectangle s drawArea.pos drawArea.size ⟨0, 0, 0⟩
  let t := { t with linebuf := strcpy t.linebuf history, linebufIndex := history.length }
  let t := t.onScreen fun s => writeLine w f s firstPos history ⟨255, 255, 255⟩
  ({ t with cursor := ⟨t.linebufIndex + 1, t.cursor.y⟩ }, drawArea)

/-- Which way a key goes through the history. -/
def direction (unicode : UInt32) (keycode : UInt8) : Option ℤ :=
  if unicode ≠ 0 then none
  else if keycode = 0x51 then some (-1)
  else if keycode = 0x52 then some 1
  else none

/-- What `InputKey` does between its calls of `DrawCursor`, for a key other than Enter. -/
def inputKeyBody (unicode : UInt32) (keycode : UInt8) (drawArea : Rectangle) : LineTerminal σ × Rectangle :=
  if unicode = 0x08 then t.backspace w drawArea
  else if unicode ≠ 0 then (t.type w f unicode, drawArea)
  else
    match direction unicode keycode with
    | some d => t.historyUpDown w f d
    | none => (t, drawArea)

/-- `InputKey`, with what `ExecuteLine` makes of the terminal. -/
def inputKey (executeLine : LineTerminal σ → LineTerminal σ) (keycode : UInt8) (unicode : UInt32) :
    LineTerminal σ × Rectangle :=
  let t := t.drawCursor w false
  let drawArea : Rectangle := ⟨t.toTerminal.calcCursorPos, ⟨8 * 2, 16⟩⟩
  if unicode = 0x0a then
    let t := executeLine (t.enter w)
    let t := t.printText w f [0x3e]
    let t := t.onScreen w.readWindow
    (t.drawCursor w true, ⟨Terminal.kTopLeftMargin, innerSize⟩)
  else
    let (t, drawArea) := t.inputKeyBody w f unicode keycode drawArea
    (t.drawCursor w true, drawArea)

/-- A key other than Enter. -/
theorem inputKey_fst (executeLine : LineTerminal σ → LineTerminal σ) (keycode : UInt8) {unicode : UInt32}
    (hne : unicode ≠ 0x0a) :
    (t.inputKey w f executeLine keycode unicode).1 =
      ((t.drawCursor w false).inputKeyBody w f unicode keycode
        ⟨(t.drawCursor w false).toTerminal.calcCursorPos, ⟨8 * 2, 16⟩⟩).1.drawCursor w true := by
  unfold inputKey
  rw [if_neg hne]

/-- What `ys` does to the terminal. -/
def clear : LineTerminal σ :=
  let t := if t.showWindow then
      t.onScreen fun s => (Terminal.innerWriter w.toTerminalWindow).fillRectangle s ⟨4, 4⟩
        ⟨8 * Terminal.kColumns, 16 * Terminal.kRows⟩ ⟨0, 0, 0⟩
    else t
  { t with cursor := ⟨t.cursor.x, 0⟩ }

end LineTerminal

end DuvuvurKernel
