import DuvuvurKernel.Terminal.Drawing
import DuvuvurKernel.Terminal.Encoding
import DuvuvurKernel.Terminal.Windowless

/-!
# The line that is typed, and the line that is shown

The keyboard map of `keyboard.cpp`, and what `InputKey` makes of its characters: each is drawn as it
is, and its low byte is put into the line.

## The model

What is shown are the characters on the row of the cursor (`Row`). A key draws a character or erases one
(`keyDraw`); `inputKeyBody_window` says that this is what it does to the window. The line begins where the cursor is
behind the prompt, and further to the left if a backspace key goes there.

**Result** (`keeps_line_iff`): when an Enter key is pressed, what is executed and stored is the encoding
of what is shown if and only if all characters shown are ASCII characters.
-/

namespace DuvuvurKernel

open Lib.Loops

/-- `keycode_map`, of which the elements behind these are zero. -/
def keycodeMap : List UInt32 :=
  [0, 0, 0, 0, 0x61, 0x62, 0x63, 0x64, -- a b c d
   0x65, 0x66, 0x67, 0x68, 0x69, 0x6a, 0x6b, 0x6c, -- e f g h i j k l
   0x6d, 0x6e, 0x6f, 0x70, 0x71, 0x72, 0x73, 0x74, -- m n o p q r s t
   0x75, 0x76, 0x77, 0x78, 0x79, 0x7a, 0x31, 0x32, -- u v w x y z 1 2
   0x33, 0x34, 0x35, 0x36, 0x37, 0x38, 0x39, 0x30, -- 3 4 5 6 7 8 9 0
   0x0a, 0x08, 0x08, 0x09, 0x20, 0x2d, 0x3d, 0x5b, -- Enter, backspace twice, tab, space, - = [
   0x5d, 0x5c, 0x23, 0x3b, 0x27, 0x60, 0x2c, 0x2e,
   0x2f, 0, 0, 0, 0, 0, 0, 0,
   0, 0, 0, 0, 0, 0, 0, 0,
   0, 0, 0, 0, 0, 0, 0, 0,
   0, 0, 0, 0, 0x2f, 0x2a, 0x2d, 0x2b, -- / * - +
   0x0a, 0x31, 0x32, 0x33, 0x34, 0x35, 0x36, 0x37, -- Enter, 1 2 3 4 5 6 7
   0x38, 0x39, 0x30, 0x2e, 0x5c, 0, 0, 0x3d,
   0, 0, 0, 0, 0, 0, 0, 0,
   0, 0, 0, 0, 0, 0, 0, 0,
   0, 0, 0, 0, 0, 0, 0, 0,
   0, 0, 0, 0, 0, 0, 0, 0,
   0, 0x5c]

/-- `keycode_map_shifted`. -/
def keycodeMapShifted : List UInt32 :=
  [0, 0, 0, 0, 0x41, 0x42, 0x448, 0x434, -- A B ш д
   0x45, 0x3c6, 0x47, 0x48, 0x49, 0x4a, 0x43a, 0x4c, -- E φ G H I J к L
   0x4d, 0x4e, 0x4f, 0x50, 0x51, 0x52, 0x436, 0x54, -- M N O P Q R ж T
   0x55, 0x3b2, 0x57, 0x436, 0x59, 0x446, 0x21, 0x40, -- U β W ж Y ц ! @
   0x23, 0x24, 0x25, 0x5e, 0x26, 0x2a, 0x28, 0x29,
   0x0a, 0x08, 0x08, 0x09, 0x20, 0x5f, 0x2b, 0x7b,
   0x7d, 0x7c, 0x7e, 0x3a, 0x22, 0x7e, 0x3c, 0x3e,
   0x3f, 0, 0, 0, 0, 0, 0, 0,
   0, 0, 0, 0, 0, 0, 0, 0,
   0, 0, 0, 0, 0, 0, 0, 0,
   0, 0, 0, 0, 0x2f, 0x2a, 0x2d, 0x2b,
   0x0a, 0x31, 0x32, 0x33, 0x34, 0x35, 0x36, 0x37,
   0x38, 0x39, 0x30, 0x2e, 0x5c, 0, 0, 0x3d,
   0, 0, 0, 0, 0, 0, 0, 0,
   0, 0, 0, 0, 0, 0, 0, 0,
   0, 0, 0, 0, 0, 0, 0, 0,
   0, 0, 0, 0, 0, 0, 0, 0,
   0, 0x7c]

/-- `kLShiftBitMask | kRShiftBitMask`. -/
def kShiftBitMask : UInt8 := 0b00100010

/-- The character of a key, in the observer of `InitializeKeyboard`. -/
def unicodeOfKey (modifier keycode : UInt8) : UInt32 :=
  if modifier &&& kShiftBitMask ≠ 0 then keycodeMapShifted.getD keycode.toNat 0 else keycodeMap.getD keycode.toNat 0

namespace LineTerminal

variable {σ : Type} (w : TerminalScreen σ) (f : Font)

/-! ### What is shown -/

/-- What a key for a character draws: a character at a column, or nothing there any more. -/
inductive CellDraw where
  | put (x : ℤ) (c : UInt32)
  | erase (x : ℤ)

/-- What `InputKey` draws for a character other than the newline. -/
def keyDraw (t : LineTerminal σ) (unicode : UInt32) : Option CellDraw :=
  if t.showWindow = false then none
  else if unicode = 0x08 then if t.cursor.x > 0 then some (.erase (t.cursor.x - 1)) else none
  else if t.cursor.x < Terminal.kColumns - 1 ∧ t.linebufIndex < kLineMax - 1 then some (.put t.cursor.x unicode)
  else none

/-- The position of a column on the row of the cursor. -/
def cellPos (t : LineTerminal σ) (x : ℤ) : Vector2D := Terminal.kTopLeftMargin + ⟨4 + 8 * x, 4 + 16 * t.cursor.y⟩

/-- On the window. -/
def CellDraw.onWindow (t : LineTerminal σ) : CellDraw → σ
  | .put x c => f.writeUnicodeChar w.toPixelWriter t.window (t.cellPos x) c ⟨255, 255, 255⟩
  | .erase x => w.fillRectangle t.window (t.cellPos x) ⟨8, 16⟩ ⟨0, 0, 0⟩

/-- The row of the cursor: the character at each column, and the column at which the line begins. -/
structure Row where
  cells : ℤ → Option UInt32
  start : ℤ

/-- The row after a key has drawn, with the cursor at `x`. -/
def Row.after (row : Row) (x : ℤ) : Option CellDraw → Row
  | none => { row with start := min row.start x }
  | some (.put x' c) => ⟨Function.update row.cells x' (some c), min row.start x⟩
  | some (.erase x') => ⟨Function.update row.cells x' none, min row.start x⟩

/-- The characters from the start of the line up to the cursor at `x`. -/
def Row.text (row : Row) (x : ℤ) : List UInt32 :=
  (List.range (x - row.start).toNat).map fun i : ℕ => (row.cells (row.start + i)).getD 0x20

/-- A key is pressed. -/
def typeKey (executeLine : LineTerminal σ → LineTerminal σ) (s : LineTerminal σ × Row) (key : UInt8 × UInt8) :
    LineTerminal σ × Row :=
  let unicode := unicodeOfKey key.1 key.2
  let t := (s.1.inputKey w f executeLine key.2 unicode).1
  (t, s.2.after t.cursor.x (s.1.keyDraw unicode))

/-- Keys are pressed one after the other. -/
def typeKeys (executeLine : LineTerminal σ → LineTerminal σ) (t : LineTerminal σ) (row : Row)
    (keys : List (UInt8 × UInt8)) :
    LineTerminal σ × Row :=
  keys.foldl (typeKey w f executeLine) (t, row)

/-- At the Enter key, the line is executed, stored, recalled and echoed as it is shown. -/
structure KeepsLine (t : LineTerminal σ) (shown : List UInt32) : Prop where
  executed : line ((t.drawCursor w false).enter w).linebuf = encode shown
  stored : shown ≠ [] → ((t.drawCursor w false).enter w).cmdHistory.head?.map line = some (encode shown)
  recalled : shown ≠ [] → ((t.drawCursor w false).enter w).recalled 1 = encode shown
  echoed : ∀ r, Returns (stringLoop (fun _ => true) (fun l u32 => l ++ [u32])
    (bytesOf (line ((t.drawCursor w false).enter w).linebuf ++ [0]))) (0, []) r ↔ r = ((encode shown).length, shown)

variable {w f} {executeLine : LineTerminal σ → LineTerminal σ} {t : LineTerminal σ} {row : Row} {cs : List UInt32}
    {c unicode : UInt32}
  {keycode : UInt8} {area : Rectangle}

/-- What is drawn on the row is drawn on the window. -/
theorem inputKeyBody_window (h : t.showWindow = true) (hc : unicode ≠ 0) :
    (t.inputKeyBody w f unicode keycode area).1.window = (t.keyDraw unicode).elim t.window
    (CellDraw.onWindow w f t) := by
  have hshow : ¬ t.showWindow = false := by rw [h]; exact Bool.noConfusion
  unfold inputKeyBody keyDraw
  rw [if_neg hshow]
  split
  next =>
    unfold backspace
    split
    next => simp [h, onScreen, CellDraw.onWindow, cellPos, Terminal.calcCursorPos]
    next => rfl
  next =>
    unfold type
    split
    next => simp [h, onScreen, CellDraw.onWindow, cellPos, Terminal.calcCursorPos]
    next => rfl

/-! ### The line is typed -/

/-- The line of the characters `cs` is typed. -/
structure Shows (t : LineTerminal σ) (row : Row) (cs : List UInt32) : Prop where
  showWindow : t.showWindow = true
  index : t.linebufIndex = cs.length
  cursor : t.cursor.x = row.start + cs.length
  cells : ∀ i (hi : i < cs.length), row.cells (row.start + i) = some cs[i]
  buffer : ∀ i (hi : i < cs.length), t.linebuf i = cs[i].toUInt8
  short : cs.length < kLineMax
  nonzero : 0 ∉ cs

theorem shows_nil (hwindow : t.showWindow = true) (hindex : t.linebufIndex = 0) (hcursor : t.cursor.x = row.start) :
    Shows t row [] where
  showWindow := hwindow
  index := hindex
  cursor := by simpa using hcursor
  cells i hi := absurd hi (Nat.not_lt_zero i)
  buffer i hi := absurd hi (Nat.not_lt_zero i)
  short := by decide
  nonzero := List.not_mem_nil

/-- What is shown are the characters of the line. -/
theorem Shows.text_eq (h : Shows t row cs) : row.text t.cursor.x = cs := by
  have hlength : (t.cursor.x - row.start).toNat = cs.length := by
    rw [h.cursor]
    omega
  rw [Row.text, hlength]
  refine List.ext_getElem (by simp) fun i hi hi' => ?_
  rw [List.getElem_map, List.getElem_range, h.cells i hi', Option.getD_some]

theorem drawCursor_fields (t : LineTerminal σ) (visible : Bool) :
    (t.drawCursor w visible).showWindow = t.showWindow ∧ (t.drawCursor w visible).cursor = t.cursor := by
  unfold drawCursor Terminal.drawCursor
  dsimp only
  split <;> exact ⟨rfl, rfl⟩

theorem Shows.drawCursor (h : Shows t row cs) (visible : Bool) : Shows (t.drawCursor w visible) row cs := by
  obtain ⟨hwindow, hcursor⟩ := drawCursor_fields (w := w) t visible
  exact ⟨hwindow.trans h.showWindow, h.index, (congrArg Vector2D.x hcursor).trans h.cursor, h.cells, h.buffer, h.short,
    h.nonzero⟩

theorem keyDraw_drawCursor (t : LineTerminal σ) (visible : Bool) (unicode : UInt32) :
    (t.drawCursor w visible).keyDraw unicode = t.keyDraw unicode := by
  obtain ⟨hwindow, hcursor⟩ := drawCursor_fields (w := w) t visible
  unfold keyDraw
  rw [hwindow, hcursor]
  rfl

/-- Nothing is drawn. -/
theorem Shows.after_none (h : Shows t row cs) : Shows t (row.after t.cursor.x none) cs := by
  have hstart : (row.after t.cursor.x none).start = row.start := by
    rw [Row.after, h.cursor]
    exact min_eq_left (by omega)
  refine ⟨h.showWindow, h.index, ?_, fun i hi => ?_, h.buffer, h.short, h.nonzero⟩
  · rw [hstart, h.cursor]
  · rw [hstart]
    exact h.cells i hi

theorem backspace_fields (area : Rectangle) (hpos : t.cursor.x > 0) : (t.backspace w area).1.showWindow = t.showWindow ∧
    (t.backspace w area).1.cursor.x = t.cursor.x - 1 ∧ (t.backspace w area).1.linebufIndex = t.linebufIndex - 1 ∧
    (t.backspace w area).1.linebuf = t.linebuf := by
  unfold LineTerminal.backspace
  rw [if_pos hpos]
  dsimp only
  split <;> exact ⟨rfl, rfl, rfl, rfl⟩

/-- A backspace key takes the last character away, or what is before the line. -/
theorem Shows.backspace (h : Shows t row cs) :
    ∃ cs', Shows (t.backspace w area).1 (row.after (t.backspace w area).1.cursor.x (t.keyDraw 0x08)) cs' := by
  have hshow : ¬ t.showWindow = false := by rw [h.showWindow]; exact Bool.noConfusion
  have hdraw : t.keyDraw 0x08 = if t.cursor.x > 0 then some (.erase (t.cursor.x - 1)) else none := by
    rw [keyDraw, if_neg hshow, if_pos rfl]
  have hcursor := h.cursor
  by_cases hpos : t.cursor.x > 0
  · obtain ⟨hwindow, hx, hindex, hbuffer⟩ := backspace_fields (w := w) area hpos
    rw [hdraw, if_pos hpos]
    rcases List.eq_nil_or_concat cs with rfl | ⟨cs, c, rfl⟩
    · refine ⟨[], shows_nil (hwindow.trans h.showWindow) ?_ ?_⟩
      · rw [hindex, h.index]
        rfl
      · simp only [Row.after]
        simp at hcursor
        omega
    · rw [List.concat_eq_append] at h hcursor
      rw [List.length_append, List.length_singleton] at hcursor
      have hlast : t.cursor.x - 1 = row.start + cs.length := by omega
      have hstart : min row.start (t.cursor.x - 1) = row.start := min_eq_left (by omega)
      have hget : ∀ i (hi : i < cs.length) (hi' : i < (cs ++ [c]).length), (cs ++ [c])[i] = cs[i] := fun i hi _ =>
        List.getElem_append_left hi
      refine ⟨cs, hwindow.trans h.showWindow, ?_, ?_, fun i hi => ?_, fun i hi => ?_, ?_, ?_⟩
      · rw [hindex, h.index, List.length_append]
        rfl
      · rw [hx, Row.after, hstart]
        exact hlast
      · rw [hx, Row.after, hstart]
        dsimp only
        rw [Function.update_of_ne (by omega), h.cells i (by simp; omega), hget i hi]
      · rw [hbuffer, h.buffer i (by simp; omega), hget i hi]
      · have hshort := h.short
        rw [List.length_append] at hshort
        omega
      · exact fun hmem => h.nonzero (List.mem_append_left _ hmem)
  · have hsame : (t.backspace w area).1 = t := by
      unfold LineTerminal.backspace
      rw [if_neg hpos]
    rw [hdraw, if_neg hpos, hsame]
    exact ⟨cs, h.after_none⟩

theorem type_fields (unicode : UInt32) (hroom : t.cursor.x < Terminal.kColumns - 1 ∧ t.linebufIndex < kLineMax - 1) :
    (t.type w f unicode).showWindow = t.showWindow ∧ (t.type w f unicode).cursor.x = t.cursor.x + 1 ∧
    (t.type w f unicode).linebufIndex = t.linebufIndex + 1 ∧
    (t.type w f unicode).linebuf = Function.update t.linebuf t.linebufIndex unicode.toUInt8 := by
  unfold LineTerminal.type
  rw [if_pos hroom]
  dsimp only
  split <;> exact ⟨rfl, rfl, rfl, rfl⟩

/-- A character is typed, where there is room. -/
theorem Shows.type (h : Shows t row cs) (hback : unicode ≠ 0x08) (hne : unicode ≠ 0) :
    ∃ cs', Shows (t.type w f unicode) (row.after (t.type w f unicode).cursor.x (t.keyDraw unicode)) cs' := by
  have hshow : ¬ t.showWindow = false := by rw [h.showWindow]; exact Bool.noConfusion
  have hdraw : t.keyDraw unicode =
      if t.cursor.x < Terminal.kColumns - 1 ∧ t.linebufIndex < kLineMax - 1 then some (.put t.cursor.x unicode)
          else none := by
    rw [keyDraw, if_neg hshow, if_neg hback]
  have hcursor := h.cursor
  by_cases hroom : t.cursor.x < Terminal.kColumns - 1 ∧ t.linebufIndex < kLineMax - 1
  · obtain ⟨hwindow, hx, hindex, hbuffer⟩ := type_fields (w := w) (f := f) unicode hroom
    have hstart : min row.start (t.cursor.x + 1) = row.start := min_eq_left (by omega)
    rw [hdraw, if_pos hroom]
    refine ⟨cs ++ [unicode], hwindow.trans h.showWindow, ?_, ?_, fun i hi => ?_, fun i hi => ?_, ?_, ?_⟩
    · rw [hindex, h.index, List.length_append, List.length_singleton]
    · rw [hx, Row.after, hstart, hcursor, List.length_append, List.length_singleton]
      push_cast
      ring
    · rw [hx, Row.after, hstart]
      dsimp only
      rcases Nat.lt_succ_iff_lt_or_eq.mp (by simpa using hi) with hold | rfl
      · rw [Function.update_of_ne (by omega), h.cells i hold, List.getElem_append_left hold]
      · rw [hcursor, Function.update_self, List.getElem_append_right (Nat.le_refl _)]
        simp
    · rw [hbuffer, h.index]
      rcases Nat.lt_succ_iff_lt_or_eq.mp (by simpa using hi) with hold | rfl
      · rw [Function.update_of_ne (Nat.ne_of_lt hold), h.buffer i hold, List.getElem_append_left hold]
      · rw [Function.update_self, List.getElem_append_right (Nat.le_refl _)]
        simp
    · have hlt := hroom.2
      rw [h.index] at hlt
      rw [List.length_append, List.length_singleton]
      omega
    · intro hmem
      rcases List.mem_append.mp hmem with hmem | hmem
      · exact h.nonzero hmem
      · exact hne (List.mem_singleton.mp hmem).symm
  · have hsame : t.type w f unicode = t := by
      unfold LineTerminal.type
      rw [if_neg hroom]
    rw [hdraw, if_neg hroom, hsame]
    exact ⟨cs, h.after_none⟩

/-- **A key is pressed.** -/
theorem Shows.typeKey {key : UInt8 × UInt8} (h : Shows t row cs) (hne : unicodeOfKey key.1 key.2 ≠ 0)
    (henter : unicodeOfKey key.1 key.2 ≠ 0x0a) :
    ∃ cs', Shows (typeKey w f executeLine (t, row) key).1 (typeKey w f executeLine (t, row) key).2 cs' := by
  have hbody : ∀ area, ∃ cs', Shows ((t.drawCursor w false).inputKeyBody w f (unicodeOfKey key.1 key.2) key.2 area).1
      (row.after ((t.drawCursor w false).inputKeyBody w f (unicodeOfKey key.1 key.2) key.2 area).1.cursor.x
        (t.keyDraw (unicodeOfKey key.1 key.2))) cs' := by
    intro area
    rw [← keyDraw_drawCursor (w := w) t false]
    unfold inputKeyBody
    by_cases hback : unicodeOfKey key.1 key.2 = 0x08
    · rw [if_pos hback, hback]
      exact (h.drawCursor false).backspace
    · rw [if_neg hback, if_pos hne]
      exact (h.drawCursor false).type hback hne
  obtain ⟨cs', hcs'⟩ := hbody ⟨(t.drawCursor w false).toTerminal.calcCursorPos, ⟨8 * 2, 16⟩⟩
  refine ⟨cs', ?_⟩
  unfold LineTerminal.typeKey
  dsimp only
  rw [inputKey_fst w f t executeLine key.2 henter, (drawCursor_fields _ true).2]
  exact hcs'.drawCursor true

/-- **Keys are pressed.** -/
theorem Shows.typeKeys (h : Shows t row cs) {keys : List (UInt8 × UInt8)}
    (hkeys : ∀ key ∈ keys, unicodeOfKey key.1 key.2 ≠ 0 ∧ unicodeOfKey key.1 key.2 ≠ 0x0a) :
    ∃ cs', Shows (typeKeys w f executeLine t row keys).1 (typeKeys w f executeLine t row keys).2 cs' := by
  induction keys generalizing t row cs with
  | nil => exact ⟨cs, h⟩
  | cons key keys ih =>
    obtain ⟨hkey, hrest⟩ := List.forall_mem_cons.mp hkeys
    obtain ⟨cs', hcs'⟩ : ∃ cs', Shows (LineTerminal.typeKey w f executeLine (t, row) key).1
        (LineTerminal.typeKey w f executeLine (t, row) key).2 cs' := h.typeKey hkey.1 hkey.2
    exact ih hcs' hrest

/-! ### The encoding -/

theorem encode_ascii (h : ∀ c ∈ cs, c ≤ 0x7f) : encode cs = cs.map UInt32.toUInt8 := by
  induction cs with
  | nil => rfl
  | cons c cs ih =>
    obtain ⟨hc, hcs⟩ := List.forall_mem_cons.mp h
    have hone : convertUTF32toUTF8 c = [c.toUInt8] := if_pos hc
    have hsplit : encode (c :: cs) = convertUTF32toUTF8 c ++ encode cs := List.flatMap_cons
    rw [hsplit, hone, ih hcs]
    rfl

/-- A character outside of ASCII is encoded in more than one byte. -/
theorem encode_length (cs : List UInt32) :
    cs.length ≤ (encode cs).length ∧ ((encode cs).length ≤ cs.length → ∀ c ∈ cs, c ≤ 0x7f) := by
  induction cs with
  | nil => exact ⟨Nat.le_refl _, fun _ _ h => absurd h List.not_mem_nil⟩
  | cons c cs ih =>
    obtain ⟨hle, hascii⟩ := ih
    have hsplit : (encode (c :: cs)).length = (convertUTF32toUTF8 c).length + (encode cs).length := by simp [encode]
    have hone : 1 ≤ (convertUTF32toUTF8 c).length := List.length_pos_of_ne_nil (convertUTF32toUTF8_ne_nil c)
    have htwo : ¬ c ≤ 0x7f → 2 ≤ (convertUTF32toUTF8 c).length := by
      intro hc
      unfold convertUTF32toUTF8
      rw [if_neg hc]
      split_ifs <;> simp
    rw [hsplit, List.length_cons]
    refine ⟨by omega, fun hshort => List.forall_mem_cons.mpr ⟨?_, hascii (by omega)⟩⟩
    by_contra hc
    have := htwo hc
    omega

/-! ### The Enter key -/

/-- The buffer that the Enter key ends. -/
theorem enter_linebuf (t : LineTerminal σ) :
    ((t.drawCursor w false).enter w).linebuf = Function.update t.linebuf t.linebufIndex 0 := rfl

/-- It is stored where it is not empty, and recalled from there. -/
theorem enter_history (h : 0 < t.linebufIndex) :
    ((t.drawCursor w false).enter w).cmdHistory.head?.map line = some (line ((t.drawCursor w false).enter w).linebuf) ∧
      ((t.drawCursor w false).enter w).recalled 1 = line ((t.drawCursor w false).enter w).linebuf := by
  have hhistory : ((t.drawCursor w false).enter w).cmdHistory =
      ((t.drawCursor w false).enter w).linebuf :: t.cmdHistory.dropLast := if_pos h
  have hindex : ((t.drawCursor w false).enter w).nextHistoryIndex 1 = 0 := by
    unfold nextHistoryIndex
    rw [hhistory, if_neg (by simp)]
    refine (if_pos ⟨rfl, ?_⟩).trans rfl
    change (-1 : ℤ) + 1 < _
    simp
  rw [recalled, hindex, hhistory]
  exact ⟨rfl, rfl⟩

theorem Shows.line_ascii (h : Shows t row cs) (hascii : ∀ c ∈ cs, c ≤ 0x7f) :
    line ((t.drawCursor w false).enter w).linebuf = encode cs := by
  have hlength : (cs.map UInt32.toUInt8).length = cs.length := List.length_map _
  have hnonzero : 0 ∉ cs.map UInt32.toUInt8 := by
    intro hmem
    obtain ⟨c, hc, hzero⟩ := List.mem_map.mp hmem
    have hle := UInt32.le_iff_toNat_le.mp (hascii c hc)
    have hbyte : c.toNat % 256 = 0 := by simpa using congrArg UInt8.toNat hzero
    have hc0 : c = 0 := UInt32.toNat_inj.mp (by
      have h127 : (0x7f : UInt32).toNat = 127 := rfl
      have h0 : (0 : UInt32).toNat = 0 := rfl
      omega)
    exact h.nonzero (hc0 ▸ hc)
  rw [encode_ascii hascii, enter_linebuf, h.index, ← hlength]
  refine line_eq (fun i hi => ?_) (Function.update_self ..) (hlength ▸ h.short) hnonzero
  rw [Function.update_of_ne (Nat.ne_of_lt hi), List.getElem_map]
  exact h.buffer i (hlength ▸ hi)

/-- What is executed is the encoding of the characters if they are ASCII characters. -/
theorem Shows.line_iff (h : Shows t row cs) :
    line ((t.drawCursor w false).enter w).linebuf = encode cs ↔ ∀ c ∈ cs, c ≤ 0x7f := by
  refine ⟨fun hline => (encode_length cs).2 ?_, h.line_ascii⟩
  rw [← hline, enter_linebuf, h.index]
  exact line_length (Function.update_self ..)

/-- **The line that is executed is the line that is shown**, and is stored, recalled and echoed as it is, if and
only if all its characters are ASCII characters. -/
theorem keeps_line_iff (hwindow : t.showWindow = true) (hindex : t.linebufIndex = 0) (hstart : t.cursor.x = row.start)
    {keys : List (UInt8 × UInt8)}
    (hkeys : ∀ key ∈ keys, unicodeOfKey key.1 key.2 ≠ 0 ∧ unicodeOfKey key.1 key.2 ≠ 0x0a) :
    KeepsLine w (typeKeys w f executeLine t row keys).1
        ((typeKeys w f executeLine t row keys).2.text (typeKeys w f executeLine t row keys).1.cursor.x) ↔
      ∀ c ∈ (typeKeys w f executeLine t row keys).2.text (typeKeys w f executeLine t row keys).1.cursor.x,
          c < 0x80 := by
  obtain ⟨cs, hcs⟩ : ∃ cs, Shows (typeKeys w f executeLine t row keys).1 (typeKeys w f executeLine t row keys).2 cs :=
    (shows_nil hwindow hindex hstart).typeKeys hkeys
  generalize typeKeys w f executeLine t row keys = s at hcs
  rw [hcs.text_eq]
  have hlt : (∀ c ∈ cs, c < 0x80) ↔ ∀ c ∈ cs, c ≤ 0x7f := by
    refine forall₂_congr fun c _ => ?_
    rw [UInt32.lt_iff_toNat_lt, UInt32.le_iff_toNat_le]
    exact Nat.lt_succ_iff
  rw [hlt, ← hcs.line_iff (w := w)]
  refine ⟨fun h => h.executed, fun h => ?_⟩
  have hchars : ∀ c ∈ cs, c ≠ 0 ∧ c ≤ 0x10FFFF := fun c hc =>
    ⟨fun hzero => hcs.nonzero (hzero ▸ hc), UInt32.le_trans (hcs.line_iff.mp h c hc) (by decide)⟩
  have hpos : cs ≠ [] → 0 < s.1.linebufIndex := fun hne => hcs.index ▸ List.length_pos_of_ne_nil hne
  refine ⟨h, fun hne => ?_, fun hne => ?_, ?_⟩
  · rw [(enter_history (hpos hne)).1, h]
  · rw [(enter_history (hpos hne)).2, h]
  · rw [h]
    exact (encoded_iff cs hchars []).1

/-- A terminal behind its first prompt. -/
def prompted : LineTerminal Bool := { hidden false with showWindow := true, cursor := ⟨1, 0⟩ }

/-- The row of the prompt. -/
def promptRow : Row := ⟨fun x => if x = 0 then some 0x3e else none, 1⟩

/-- A letter is typed. -/
theorem keeps_line_letter : KeepsLine nullScreen (typeKeys nullScreen Font.empty id prompted promptRow [(0, 4)]).1
    [0x61] := by
  have hwindow : prompted.showWindow = true := rfl
  have hindex : prompted.linebufIndex = 0 := rfl
  have hstart : prompted.cursor.x = promptRow.start := rfl
  have hkey : unicodeOfKey 0 4 = 0x61 := by rfl
  have hkeys : ∀ key ∈ [((0 : UInt8), (4 : UInt8))], unicodeOfKey key.1 key.2 ≠ 0 ∧
      unicodeOfKey key.1 key.2 ≠ 0x0a := by
    simp [hkey]
  have htext : (typeKeys nullScreen Font.empty id prompted promptRow [(0, 4)]).2.text
      (typeKeys nullScreen Font.empty id prompted promptRow [(0, 4)]).1.cursor.x = [0x61] := by decide
  have hascii : ∀ c ∈ [(0x61 : UInt32)], c < 0x80 := by simp
  rw [← htext] at hascii ⊢
  exact (keeps_line_iff hwindow hindex hstart hkeys).mpr hascii

/-- The letter `ш` is shown, and the letter `H` is executed. -/
theorem not_keeps_line_sha :
    (typeKeys nullScreen Font.empty id prompted promptRow [(0x02, 6)]).2.text
      (typeKeys nullScreen Font.empty id prompted promptRow [(0x02, 6)]).1.cursor.x = [0x448] ∧
    line (((typeKeys nullScreen Font.empty id prompted promptRow [(0x02, 6)]).1.drawCursor nullScreen false).enter
      nullScreen).linebuf =
      [0x48] ∧
    ¬ KeepsLine nullScreen (typeKeys nullScreen Font.empty id prompted promptRow [(0x02, 6)]).1 [0x448] := by
  have hline : line (((typeKeys nullScreen Font.empty id prompted promptRow [(0x02, 6)]).1.drawCursor nullScreen
    false).enter
      nullScreen).linebuf = [0x48] := by decide
  refine ⟨by decide, hline, fun h => ?_⟩
  have hencoded := h.executed
  rw [hline] at hencoded
  exact absurd hencoded (by decide)

end LineTerminal

end DuvuvurKernel
