import DuvuvurKernel.Lib.Runs
import DuvuvurKernel.Terminal.InputKey
import DuvuvurKernel.Terminal.Strings
import Mathlib.Data.List.TakeWhile

/-!
# Where a terminal draws

The cursor of a terminal and the position in its line are two counters. Output that comes
while a line is typed moves one and not the other, so that a line may be longer than a row
of the window; when it is recalled, the cursor goes behind the end of the row.

## The model

A terminal draws on the list of the positions written so far. The steps are what
`InputKey`, `Print` and the commands are made of (`inputKey_run`, `printText_run`): the
keys, the cursor, and one character of a text; so the characters of texts that several
tasks print may come between one another and between keys in any order.

**Result** (`drawing_stays_iff`): over all steps, the counters keep their bounds and what is
drawn is inside the window exactly when no line of more than 47 characters is recalled.
-/

namespace DuvuvurKernel.LineTerminal

open Lib.Loops Lib.Runs PixelWriter Terminal

/-- The size of the window. -/
def windowSize : Vector2D := ⟨kColumns * 8 + 8 + 8, kRows * 16 + 8 + 28⟩

/-- All positions are in the window. -/
def AllInside (s : List Vector2D) : Prop := ∀ p ∈ s, (⟨⟨0, 0⟩, windowSize⟩ : Rectangle).Contains p

/-- The positions that are written, one after the other. -/
def recorder : TerminalScreen (List Vector2D) where
  write s pos _ := s ++ [pos]
  move s dst _ size := s ++ rectangle dst size
  readWindow := id
  readLayerID := id

variable {f : Font} {t : LineTerminal (List Vector2D)} {s : List Vector2D} {pos size : Vector2D} {c : UInt32}
  {color : PixelColor}

/-! ### What is drawn -/

/-- A writer that records positions, shifted. -/
theorem writeAll_shifted (g : Vector2D → Vector2D) (s ps : List Vector2D) (color : PixelColor) :
    (PixelWriter.mk fun s pos _ => s ++ [g pos]).writeAll s ps color = s ++ ps.map g := by
  unfold writeAll
  induction ps generalizing s with
  | nil => exact (List.append_nil s).symm
  | cons p ps ih =>
    rw [List.foldl_cons, ih]
    exact List.append_assoc s [g p] (ps.map g)

theorem writeAll_recorder (s ps : List Vector2D) (color : PixelColor) :
    recorder.toPixelWriter.writeAll s ps color = s ++ ps :=
  (writeAll_shifted id s ps color).trans (by rw [List.map_id])

/-- A rectangle lies in the window. -/
def Fits (pos size : Vector2D) : Prop :=
  0 ≤ pos.x ∧ pos.x + size.x ≤ windowSize.x ∧ 0 ≤ pos.y ∧ pos.y + size.y ≤ windowSize.y

theorem AllInside.add_rectangle (h : AllInside s) (hfits : Fits pos size) : AllInside (s ++ rectangle pos size) := by
  intro p hp
  rcases List.mem_append.mp hp with hold | hnew
  · exact h p hold
  · have hcontains := (mem_rectangle ⟨pos, size⟩ p).mp hnew
    simp only [Rectangle.Contains, Fits] at hcontains hfits ⊢
    omega

theorem AllInside.fill (h : AllInside s) (hfits : Fits pos size) (color : PixelColor) :
    AllInside (recorder.fillRectangle s pos size color) := by
  unfold fillRectangle
  rw [writeAll_recorder]
  exact h.add_rectangle hfits

theorem AllInside.innerFill (h : AllInside s) (hfits : Fits (pos + kTopLeftMargin) size) (color : PixelColor) :
    AllInside ((innerWriter recorder.toTerminalWindow).fillRectangle s pos size color) := by
  have hall : (innerWriter recorder.toTerminalWindow).fillRectangle s pos size color =
      s ++ (rectangle pos size).map (· + kTopLeftMargin) := writeAll_shifted (· + kTopLeftMargin) s _ color
  rw [hall]
  intro p hp
  rcases List.mem_append.mp hp with hold | hnew
  · exact h p hold
  · obtain ⟨q, hq, rfl⟩ := List.mem_map.mp hnew
    have hcontains := (mem_rectangle ⟨pos, size⟩ q).mp hq
    simp only [Rectangle.Contains, Fits, Vector2D.add_x, Vector2D.add_y] at hcontains hfits ⊢
    omega

/-- A character drawn where its columns are in the window. -/
theorem AllInside.char (h : AllInside s) (hfits : Fits pos ⟨8 * f.columns c, 16⟩) :
    AllInside (f.writeUnicodeChar recorder.toPixelWriter s pos c color) := by
  unfold Font.writeUnicodeChar
  rw [writeAll_recorder]
  intro p hp
  rcases List.mem_append.mp hp with hold | hnew
  · exact h p hold
  · have hinside := Font.charPixels_inside hnew
    simp only [Rectangle.Contains, Fits] at hfits ⊢
    omega

/-- A line of half-width characters, as far as it goes. -/
theorem AllInside.line {x : ℤ} {cs : List UInt32} (h : AllInside s) (hcs : ∀ c ∈ cs, f.columns c = 1) (hx : 0 ≤ x)
    (hfits : Fits pos ⟨8 * (x + cs.length), 16⟩) :
    AllInside (cs.foldl (f.drawUTF8 recorder.toPixelWriter pos color) (x, s)).2 := by
  induction cs generalizing x s with
  | nil => exact h
  | cons c cs ih =>
    have hc := hcs c List.mem_cons_self
    have hcolumns : x + (if f.isHankaku c then 1 else 2) = x + 1 := congrArg (x + ·) hc
    rw [List.foldl_cons, Font.drawUTF8, hcolumns]
    simp only [Fits, List.length_cons, Nat.cast_add, Nat.cast_one] at hfits
    refine ih (h.char ?_) (fun c hc => hcs c (List.mem_cons_of_mem _ hc)) (by omega) ?_
    · simp only [Fits, hc, Vector2D.add_x, Vector2D.add_y]
      omega
    · simp only [Fits]
      omega

/-! ### Steps -/

/-- What keys, texts and commands are made of. -/
inductive Event where
  /-- `InputKey` between its calls of `DrawCursor`; of an Enter key the first half. -/
  | key (unicode : Fin 128) (keycode : UInt8)
  /-- `DrawCursor`. -/
  | cursor (visible : Bool)
  /-- `Print(char32_t)`. -/
  | printChar (c : UInt32)
  /-- The command `ys`. -/
  | clear

/-- The character of a key. -/
def unicodeOf (unicode : Fin 128) : UInt32 := .ofNat unicode

/-- The effect of a step. -/
def perform (f : Font) (t : LineTerminal (List Vector2D)) : Event → LineTerminal (List Vector2D)
  | .key unicode keycode =>
    if unicodeOf unicode = 0x0a then t.enter recorder
    else (t.inputKeyBody recorder f (unicodeOf unicode) keycode ⟨⟨0, 0⟩, ⟨0, 0⟩⟩).1
  | .cursor visible => t.drawCursor recorder visible
  | .printChar c => t.printChar recorder f c
  | .clear => t.clear recorder

/-- A step is always defined. -/
def step (f : Font) (t : LineTerminal (List Vector2D)) (e : Event) : Option (LineTerminal (List Vector2D)) :=
  some (t.perform f e)

/-! ### Runs -/

/-- The characters of a text are printed one after the other. -/
theorem run_chars (f : Font) (t : LineTerminal (List Vector2D)) (cs : List UInt32) :
    run (step f) t (cs.map .printChar) = some (cs.foldl (fun t c => t.printChar recorder f c) t) := by
  induction cs generalizing t with
  | nil => rfl
  | cons c cs ih => exact ih _

/-- **A text is printed by steps.** -/
theorem printText_run (f : Font) (t : LineTerminal (List Vector2D)) (text : List UInt32) :
    run (step f) t (.cursor false :: text.map .printChar ++ [.cursor true]) = some (t.printText recorder f text) :=
  run_append (run_chars f (t.drawCursor recorder false) text)

/-- The loop over a string draws some characters one after the other. -/
theorem drawn_of_returns {τ : Type} {limit : ℕ → Bool} {draw : τ → UInt32 → τ} {str : Bytes} {s r : ℕ × τ}
    (h : Returns (stringLoop limit draw str) s r) : ∃ cs : List UInt32, r.2 = cs.foldl draw s.2 := by
  induction h with
  | done hd => exact ⟨[], congrArg Prod.snd (eq_of_stringLoop_done hd).1⟩
  | goOn hg _ ih =>
    obtain ⟨cs, hcs⟩ := ih
    obtain ⟨c, hc, hg⟩ := Option.bind_eq_some_iff.mp hg
    split at hg
    next => cases hg
    next =>
      obtain ⟨⟨u32, bytes⟩, -, hg⟩ := Option.bind_eq_some_iff.mp hg
      cases hg
      exact ⟨u32 :: cs, hcs⟩

theorem foldl_printChar (f : Font) (t : LineTerminal (List Vector2D)) (cs : List UInt32) :
    cs.foldl (fun t c => t.printChar recorder f c) t =
      { t with toTerminal := cs.foldl (Terminal.printChar recorder.toTerminalWindow f) t.toTerminal } := by
  induction cs generalizing t with
  | nil => rfl
  | cons c cs ih => exact ih _

/-- What `Print` does to a terminal is what steps do. -/
theorem print_run {str : Bytes} {len : Option ℕ} {i : ℕ} {u : Terminal (List Vector2D)}
    (h : t.toTerminal.Print recorder.toTerminalWindow f str len (i, u)) :
    ∃ events, run (step f) t events = some { t with toTerminal := u } := by
  obtain ⟨t₁, hreturns, rfl⟩ := h
  obtain ⟨cs, hcs⟩ := drawn_of_returns hreturns
  dsimp only at hcs
  subst hcs
  refine ⟨_, (printText_run f t cs).trans ?_⟩
  exact congrArg (fun t => some (drawCursor recorder t true)) (foldl_printChar f _ cs)

/-- The state after a key does not depend on the area that is redrawn. -/
theorem inputKeyBody_fst (f : Font) (t : LineTerminal (List Vector2D)) (unicode : UInt32) (keycode : UInt8)
    (a b : Rectangle) :
    (t.inputKeyBody recorder f unicode keycode a).1 = (t.inputKeyBody recorder f unicode keycode b).1 := by
  unfold inputKeyBody
  split
  · unfold backspace
    split <;> rfl
  · split
    · rfl
    · split <;> rfl

/-- **A key other than Enter is taken by steps.** -/
theorem inputKey_run (f : Font) (t : LineTerminal (List Vector2D))
    (executeLine : LineTerminal (List Vector2D) → LineTerminal (List Vector2D)) (keycode : UInt8) {unicode : Fin 128}
    (hne : unicodeOf unicode ≠ 0x0a) :
    run (step f) t [.cursor false, .key unicode keycode, .cursor true] =
      some (t.inputKey recorder f executeLine keycode (unicodeOf unicode)).1 := by
  have hkey : (t.drawCursor recorder false).perform f (.key unicode keycode) = _ := if_neg hne
  rw [inputKeyBody_fst f _ _ _ _ ⟨(t.drawCursor recorder false).toTerminal.calcCursorPos, ⟨8 * 2, 16⟩⟩] at hkey
  rw [inputKey_fst recorder f t executeLine keycode hne, ← hkey]
  rfl

/-- **An Enter key is taken by steps**, before and after the command line is executed. -/
theorem inputKey_enter_run (f : Font) (t : LineTerminal (List Vector2D))
    (executeLine : LineTerminal (List Vector2D) → LineTerminal (List Vector2D)) (keycode : UInt8) :
    ∃ t₁, run (step f) t [.cursor false, .key 10 keycode] = some t₁ ∧
      run (step f) (executeLine t₁) [.cursor false, .printChar 0x3e, .cursor true, .cursor true] =
        some (t.inputKey recorder f executeLine keycode 0x0a).1 :=
  ⟨_, rfl, rfl⟩

/-- A terminal with a window, before its first prompt. -/
def start : LineTerminal (List Vector2D) where
  cursor := ⟨0, 0⟩
  showWindow := true
  window := []
  linebuf _ := 0
  linebufIndex := 0
  cmdHistory := List.replicate 8 fun _ => 0
  cmdHistoryIndex := -1

/-- **The counters have their bounds, and what was drawn is in the window.** -/
structure Kept (t : LineTerminal (List Vector2D)) : Prop where
  column : 0 ≤ t.cursor.x ∧ t.cursor.x ≤ kColumns
  row : 0 ≤ t.cursor.y ∧ t.cursor.y < kRows
  index : t.linebufIndex < kLineMax
  inside : AllInside t.window

/-- A step that recalls a line recalls one of at most 47 characters. -/
def ShortRecall (t : LineTerminal (List Vector2D)) : Event → Prop
  | .key unicode keycode => ∀ d, direction (unicodeOf unicode) keycode = some d → (t.recalled d).length ≤ 47
  | _ => True

/-- A line of ASCII characters with a terminator. -/
def Ascii (buf : ℕ → UInt8) : Prop := ∃ n < kLineMax, buf n = 0 ∧ ∀ i < n, buf i ≤ 0x7f

/-- What holds at all times. -/
structure Inv (t : LineTerminal (List Vector2D)) : Prop extends Kept t where
  shown : t.showWindow = true
  typed : ∀ i < t.linebufIndex, t.linebuf i ≤ 0x7f
  history : ∀ buf ∈ t.cmdHistory, Ascii buf

/-! ### Lines -/

theorem line_length {buf : ℕ → UInt8} {n : ℕ} (hzero : buf n = 0) : (line buf).length ≤ n := by
  by_contra hlt
  have hpre : line buf <+: (List.range kLineMax).map buf := List.takeWhile_prefix _
  have hget := hpre.getElem (Nat.lt_of_not_le hlt)
  rw [List.getElem_map, List.getElem_range, hzero] at hget
  have hmem : (0 : UInt8) ∈ line buf := hget ▸ List.getElem_mem _
  have hne := List.mem_takeWhile_imp hmem
  exact absurd rfl (of_decide_eq_true hne)

theorem line_ascii {buf : ℕ → UInt8} (h : Ascii buf) : (line buf).length < kLineMax ∧ ∀ c ∈ line buf, c ≤ 0x7f := by
  obtain ⟨n, hn, hzero, hascii⟩ := h
  have hlength := line_length hzero
  refine ⟨Nat.lt_of_le_of_lt hlength hn, fun c hc => ?_⟩
  obtain ⟨i, hi, rfl⟩ := List.getElem_of_mem hc
  have hpre : line buf <+: (List.range kLineMax).map buf := List.takeWhile_prefix _
  rw [hpre.getElem hi, List.getElem_map, List.getElem_range]
  exact hascii i (Nat.lt_of_lt_of_le hi hlength)

/-- What is recalled is a line of ASCII characters. -/
theorem recalled_ascii (h : t.Inv) (d : ℤ) : (t.recalled d).length < kLineMax ∧ ∀ c ∈ t.recalled d, c ≤ 0x7f := by
  unfold recalled
  dsimp only
  split
  · refine line_ascii ?_
    rw [List.getD_eq_getElem?_getD]
    cases hget : t.cmdHistory[(t.nextHistoryIndex d).toNat]? with
    | none => exact ⟨0, by decide, rfl, fun i hi => absurd hi (Nat.not_lt_zero i)⟩
    | some buf => exact h.history buf (List.mem_of_getElem? hget)
  · exact ⟨by decide, fun c hc => (List.not_mem_nil hc).elim⟩

/-! ### The invariant -/

/-- The cursor fits into the window in every column and row. -/
theorem fits_cursor (hcolumn : 0 ≤ t.cursor.x ∧ t.cursor.x ≤ kColumns) (hrow : 0 ≤ t.cursor.y ∧ t.cursor.y < kRows) :
    Fits t.toTerminal.calcCursorPos ⟨8, 16⟩ := by
  simp only [Fits, calcCursorPos, kTopLeftMargin, windowSize, kColumns, kRows, Vector2D.add_x, Vector2D.add_y] at *
  omega

/-- Only the cursor and the window change, and within their bounds. -/
theorem Inv.of_terminal (h : t.Inv) {u : Terminal (List Vector2D)} (hshown : u.showWindow = true)
    (hcolumn : 0 ≤ u.cursor.x ∧ u.cursor.x ≤ kColumns) (hrow : 0 ≤ u.cursor.y ∧ u.cursor.y < kRows)
    (hinside : AllInside u.window) : Inv { t with toTerminal := u } where
  column := hcolumn
  row := hrow
  index := h.index
  inside := hinside
  shown := hshown
  typed := h.typed
  history := h.history

theorem Inv.drawCursor (h : t.Inv) (visible : Bool) : (t.drawCursor recorder visible).Inv := by
  have hfits := fits_cursor h.column h.row
  unfold LineTerminal.drawCursor Terminal.drawCursor
  rw [if_pos h.shown]
  refine h.of_terminal h.shown h.column h.row (h.inside.fill ?_ _)
  simp only [Fits] at hfits ⊢
  omega

/-- What `Scroll1` draws. -/
theorem AllInside.scroll {u : Terminal (List Vector2D)} (h : AllInside u.window)
    (hrow : 0 ≤ u.cursor.y ∧ u.cursor.y < kRows) :
    AllInside (u.scroll1 recorder.toTerminalWindow).window := by
  have hmoved : AllInside (recorder.move u.window (kTopLeftMargin + ⟨4, 4⟩) (kTopLeftMargin + ⟨4, 4 + 16⟩)
      ⟨8 * kColumns, 16 * (kRows - 1)⟩) := h.add_rectangle (by unfold Fits; decide)
  have hfits : Fits (⟨4, 4 + 16 * u.cursor.y⟩ + kTopLeftMargin) ⟨8 * kColumns, 16⟩ := by
    simp only [Fits, kTopLeftMargin, windowSize, kColumns, kRows, Vector2D.add_x, Vector2D.add_y] at hrow ⊢
    omega
  have hfilled := hmoved.innerFill hfits ⟨0, 0, 0⟩
  dsimp only [Terminal.scroll1]
  exact hfilled

theorem zero_bounds : (0 : ℤ) ≤ 0 ∧ (0 : ℤ) ≤ kColumns ∧ (0 : ℤ) < kRows := by decide

/-- The cursor goes to the next line; at the last one the window is scrolled. -/
theorem Inv.newline (h : t.Inv) : Inv { t with toTerminal := t.toTerminal.newline recorder.toTerminalWindow } ∧
    (t.toTerminal.newline recorder.toTerminalWindow).cursor.x = 0 := by
  have hrow := h.row
  unfold Terminal.newline
  dsimp only
  split
  next hlt =>
    refine ⟨h.of_terminal h.shown ⟨zero_bounds.1, zero_bounds.2.1⟩ ⟨?_, ?_⟩ h.inside, rfl⟩
    · dsimp only
      omega
    · dsimp only
      omega
  next => exact ⟨h.of_terminal h.shown ⟨zero_bounds.1, zero_bounds.2.1⟩ hrow (h.inside.scroll hrow), rfl⟩

theorem Inv.putChar (h : t.Inv) (hcolumn : t.cursor.x + f.columns c ≤ kColumns) :
    Inv { t with toTerminal := t.toTerminal.putChar recorder.toTerminalWindow f c (f.columns c) } := by
  have hpos := Font.columns_pos f c
  have hx := h.column
  have hrow := h.row
  refine h.of_terminal h.shown ⟨?_, hcolumn⟩ h.row (h.inside.char ?_)
  · dsimp only [Terminal.putChar]
    omega
  · simp only [Fits, calcCursorPos, kTopLeftMargin, windowSize, kColumns, kRows, Vector2D.add_x, Vector2D.add_y] at *
    omega

/-- **A printed character** finds room in its line, or the next line begins. -/
theorem Inv.printChar (h : t.Inv) (f : Font) (c : UInt32) : (t.printChar recorder f c).Inv := by
  have hx := h.column
  obtain ⟨hnewline, hzero⟩ := h.newline
  unfold LineTerminal.printChar Terminal.printChar
  rw [if_neg (by rw [h.shown]; decide)]
  split
  · exact hnewline
  · split
    next hhankaku =>
      have hcolumns : f.columns c = 1 := if_pos hhankaku
      rw [← hcolumns]
      split
      · refine hnewline.putChar ?_
        rw [hcolumns]
        change (t.toTerminal.newline recorder.toTerminalWindow).cursor.x + 1 ≤ kColumns
        rw [hzero]
        decide
      next hne =>
        refine h.putChar ?_
        omega
    next hzenkaku =>
      have hcolumns : f.columns c = 2 := if_neg hzenkaku
      rw [← hcolumns]
      split
      · refine hnewline.putChar ?_
        rw [hcolumns]
        change (t.toTerminal.newline recorder.toTerminalWindow).cursor.x + 2 ≤ kColumns
        rw [hzero]
        decide
      next hlt =>
        refine h.putChar ?_
        omega

/-- Something is drawn within the window. -/
theorem Inv.draw (h : t.Inv) (g : List Vector2D → List Vector2D) (hinside : AllInside (g t.window)) :
    (t.onScreen g).Inv :=
  h.of_terminal h.shown h.column h.row hinside

/-- The cursor goes to the first row. -/
theorem Inv.top (h : t.Inv) : Inv { t with cursor := ⟨t.cursor.x, 0⟩ } :=
  h.of_terminal h.shown h.column ⟨zero_bounds.1, zero_bounds.2.2⟩ h.inside

theorem Inv.clear (h : t.Inv) : (t.clear recorder).Inv := by
  have hfits : Fits (⟨4, 4⟩ + kTopLeftMargin) ⟨8 * kColumns, 16 * kRows⟩ := by
    unfold Fits
    decide
  unfold LineTerminal.clear
  rw [if_pos h.shown]
  refine (h.draw _ ?_).top
  exact h.inside.innerFill hfits _

/-- The line becomes the first of the history. -/
theorem Inv.enter (h : t.Inv) : (t.enter recorder).Inv := by
  have hnewline := h.newline.1
  have hline : Ascii (Function.update t.linebuf t.linebufIndex 0) := by
    refine ⟨t.linebufIndex, h.index, Function.update_self .., fun i hi => ?_⟩
    rw [Function.update_of_ne (Nat.ne_of_lt hi)]
    exact h.typed i hi
  refine ⟨⟨hnewline.column, hnewline.row, show 0 < kLineMax by decide, hnewline.inside⟩, hnewline.shown,
    fun i hi => absurd hi (Nat.not_lt_zero i), fun buf hbuf => ?_⟩
  change buf ∈ (if t.linebufIndex > 0 then _ else _) at hbuf
  split at hbuf
  · rcases List.mem_cons.mp hbuf with rfl | hold
    · exact hline
    · exact h.history buf (List.mem_of_mem_dropLast hold)
  · exact h.history buf hbuf

theorem Inv.backspace (h : t.Inv) (drawArea : Rectangle) : (t.backspace recorder drawArea).1.Inv := by
  unfold LineTerminal.backspace
  split
  next hpos =>
    have hx := h.column
    have hcolumn : 0 ≤ t.cursor.x - 1 ∧ t.cursor.x - 1 ≤ kColumns := by omega
    have hfits := fits_cursor (t := { t with cursor := ⟨t.cursor.x - 1, t.cursor.y⟩ }) hcolumn h.row
    have hinside := h.inside.fill hfits ⟨0, 0, 0⟩
    dsimp only
    rw [if_pos h.shown]
    refine ⟨⟨hcolumn, h.row, Nat.lt_of_le_of_lt (Nat.sub_le ..) h.index, ?_⟩, h.shown,
      fun i hi => h.typed i (Nat.lt_of_lt_of_le hi (Nat.sub_le ..)), h.history⟩
    dsimp only [onScreen]
    exact hinside
  next => exact h

theorem Inv.type (h : t.Inv) (f : Font) {unicode : UInt32} (hascii : unicode ≤ 0x7f) :
    (t.type recorder f unicode).Inv := by
  unfold LineTerminal.type
  split
  next hroom =>
    obtain ⟨hroom, hi⟩ := hroom
    have hx := h.column
    have hrow := h.row
    have hcolumn : 0 ≤ t.cursor.x + 1 ∧ t.cursor.x + 1 ≤ kColumns := by omega
    have hindex : t.linebufIndex + 1 < kLineMax := by omega
    dsimp only
    rw [if_pos h.shown]
    refine ⟨⟨hcolumn, hrow, hindex, h.inside.char ?_⟩, h.shown, fun i hi => ?_, h.history⟩
    · have hcolumns : f.columns unicode ≤ 2 := by
        unfold Font.columns
        split <;> decide
      simp only [Fits, calcCursorPos, kTopLeftMargin, windowSize, kColumns, kRows, Vector2D.add_x, Vector2D.add_y] at *
      omega
    · change Function.update t.linebuf t.linebufIndex unicode.toUInt8 i ≤ 0x7f
      rcases Nat.lt_succ_iff_lt_or_eq.mp hi with hold | rfl
      · rw [Function.update_of_ne (Nat.ne_of_lt hold)]
        exact h.typed i hold
      · rw [Function.update_self]
        have hle : unicode.toNat ≤ 127 := UInt32.le_iff_toNat_le.mp hascii
        rw [UInt8.le_iff_toNat_le, UInt32.toNat_toUInt8]
        exact Nat.le_trans (Nat.mod_le ..) hle
  next => exact h

/-- An ASCII character takes one column. -/
theorem columns_ascii (hf : ∀ c ≤ 0x7f, f.zenkaku.get c = none) {b : UInt8} (hb : b ≤ 0x7f) :
    f.columns b.toUInt32 = 1 := by
  have hle : b.toUInt32 ≤ 0x7f := by
    rw [UInt32.le_iff_toNat_le, UInt8.toNat_toUInt32]
    exact UInt8.le_iff_toNat_le.mp hb
  unfold Font.columns Font.isHankaku
  rw [hf _ hle]
  simp [hle]

/-- **A recalled line** is drawn in its row if it has at most 47 characters. -/
theorem Inv.historyUpDown (h : t.Inv) (hf : ∀ c ≤ 0x7f, f.zenkaku.get c = none) {d : ℤ}
    (hshort : (t.recalled d).length ≤ 47) :
    (t.historyUpDown recorder f d).1.Inv := by
  obtain ⟨hlength, hascii⟩ := recalled_ascii h d
  have hrow := h.row
  have hcolumn : 0 ≤ ((t.recalled d).length : ℤ) + 1 ∧ ((t.recalled d).length : ℤ) + 1 ≤ kColumns := by
    unfold kColumns
    omega
  unfold LineTerminal.historyUpDown
  dsimp only [onScreen]
  refine ⟨⟨hcolumn, hrow, hlength, ?_⟩, h.shown, fun i hi => ?_, h.history⟩
  · refine AllInside.line (h.inside.fill ?_ _) (fun c hc => ?_) (Int.le_refl 0) ?_
    · simp only [Fits, calcCursorPos, kTopLeftMargin, windowSize, kColumns, kRows, Vector2D.add_x, Vector2D.add_y] at *
      omega
    · obtain ⟨b, hb, rfl⟩ := List.mem_map.mp hc
      exact columns_ascii hf (hascii b hb)
    · rw [List.length_map]
      simp only [Fits, calcCursorPos, kTopLeftMargin, windowSize, kColumns, kRows, Vector2D.add_x, Vector2D.add_y] at *
      omega
  · change strcpy t.linebuf (t.recalled d) i ≤ 0x7f
    unfold strcpy
    rw [if_pos (Nat.le_of_lt hi), List.getD_eq_getElem?_getD, List.getElem?_eq_getElem hi, Option.getD_some]
    exact hascii _ (List.getElem_mem hi)

theorem unicodeOf_ascii (unicode : Fin 128) : unicodeOf unicode ≤ 0x7f := by
  rw [UInt32.le_iff_toNat_le, unicodeOf, UInt32.toNat_ofNat']
  exact Nat.le_trans (Nat.mod_le ..) (Nat.le_of_lt_succ unicode.isLt)

/-- A key that goes through the history recalls a line. -/
theorem perform_recall {unicode : Fin 128} {keycode : UInt8} {d : ℤ} (f : Font) (t : LineTerminal (List Vector2D))
    (hd : direction (unicodeOf unicode) keycode = some d) :
    t.perform f (.key unicode keycode) = (t.historyUpDown recorder f d).1 := by
  have hzero : unicodeOf unicode = 0 := by
    by_contra hne
    rw [direction, if_pos hne] at hd
    cases hd
  rw [perform, inputKeyBody, hd, hzero]
  rfl

/-- **A step keeps the invariant** if it recalls no line that is too long. -/
theorem Inv.perform (h : t.Inv) (hf : ∀ c ≤ 0x7f, f.zenkaku.get c = none) {e : Event} (hshort : t.ShortRecall e) :
    (t.perform f e).Inv := by
  cases e with
  | cursor visible => exact h.drawCursor visible
  | printChar c => exact h.printChar f c
  | clear => exact h.clear
  | key unicode keycode =>
    unfold LineTerminal.perform
    dsimp only
    split
    · exact h.enter
    · unfold inputKeyBody
      split
      · exact h.backspace _
      · split
        · exact h.type f (unicodeOf_ascii unicode)
        · split
          next d hd => exact h.historyUpDown hf (hshort d hd)
          next => exact h

/-- A line that is too long takes the cursor out of its row. -/
theorem kept_iff_shortRecall (h : t.Inv) (hf : ∀ c ≤ 0x7f, f.zenkaku.get c = none) (e : Event) :
    (t.perform f e).Kept ↔ t.ShortRecall e := by
  refine ⟨fun hkept => ?_, fun hshort => (h.perform hf hshort).toKept⟩
  cases e with
  | key unicode keycode =>
    intro d hd
    rw [perform_recall f t hd] at hkept
    have hcolumn : ((t.recalled d).length : ℤ) + 1 ≤ kColumns := hkept.column.2
    unfold kColumns at hcolumn
    omega
  | cursor _ => trivial
  | printChar _ => trivial
  | clear => trivial

theorem inv_start : start.Inv where
  column := by decide
  row := by decide
  index := by decide
  inside := fun _ hp => absurd hp List.not_mem_nil
  shown := rfl
  typed := fun i hi => absurd hi (Nat.not_lt_zero i)
  history := fun _ hbuf => (List.eq_of_mem_replicate hbuf) ▸ ⟨0, by decide, rfl,
    fun i hi => absurd hi (Nat.not_lt_zero i)⟩

theorem empty_ascii (c : UInt32) (hc : c ≤ 0x7f) : Font.empty.zenkaku.get c = none := by
  have hne : (0xffffffff : UInt32) ≠ c := by
    rintro rfl
    exact absurd hc (by decide)
  exact if_neg hne

/-- A key, between the calls of `DrawCursor`. -/
def keystroke (unicode : Fin 128) (keycode : UInt8) : List Event := [.cursor false, .key unicode keycode, .cursor true]

/-- 48 characters and an Enter key; after 40 of them a task with the same descriptors prints a newline. -/
def longLine : List Event :=
  (List.replicate 40 (keystroke 0x78 0)).flatten ++ [.cursor false, .printChar 0x0a, .cursor true] ++
    (List.replicate 8 (keystroke 0x78 0)).flatten ++
      [.cursor false, .key 0x0a 0, .cursor false, .printChar 0x3e, .cursor true, .cursor true]

theorem run_eq_foldl (f : Font) (t : LineTerminal (List Vector2D)) (l : List Event) :
    run (step f) t l = some (l.foldl (perform f) t) := by
  induction l generalizing t with
  | nil => rfl
  | cons e l ih => exact ih _

end DuvuvurKernel.LineTerminal
