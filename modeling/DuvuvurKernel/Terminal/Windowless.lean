import DuvuvurKernel.Terminal.CommandLine
import DuvuvurKernel.Terminal.InputKey

/-!
# Terminals without a window

The right-hand side of a pipe, and what `ksfnerfe` starts, run in terminals of which
`show_window_` is false: `window_` is null, and `layer_id_` has no value. `TaskTerminal` types
the command line with `InputKey`, an Enter key behind it, and finishes.

## The model

A terminal draws on a mark: whether `window_` has been followed or `layer_id_` read
(`nullScreen`). What there is behind a command, files and applications, is a `Commands`;
where a command does not return, the terminal is left as it is then.

What `ExecuteLine` writes into its line is behind the end of what is read of it later, and
is left out.

**Result** (`window_untouched_iff`): neither is used exactly when there is no command line,
or a command that never returns and has no `|` behind it. Behind the first command that
returns, the prompt is printed.
-/

namespace DuvuvurKernel

/-- What a command line meets. -/
structure Commands where
  /-- Whether a file to redirect to can be opened or created. -/
  opens : List UInt8 → Bool
  /-- Whether `xel` or `karse` has a file to show. -/
  draws : CommandLine → Bool
  /-- Whether a command returns. -/
  returns : CommandLine → Bool
  /-- Whether the task behind the `|` of a line finishes. -/
  finishes : CommandLine → Bool

namespace LineTerminal

variable {σ : Type} (w : TerminalScreen σ) (f : Font) (env : Commands)

/-- The command `ys`. -/
def ys : List UInt8 := [0x79, 0x73]

/-- The command `xel`. -/
def xel : List UInt8 := [0x78, 0x65, 0x6c]

/-- The command `karse`. -/
def karse : List UInt8 := [0x6b, 0x61, 0x72, 0x73, 0x65]

/-- The command of a line, and whether it returns. -/
def executeCommand (l : CommandLine) (t : LineTerminal σ) : LineTerminal σ × Bool :=
  if l.command = ys then (t.clear w, true)
  else if (l.command = xel ∨ l.command = karse) ∧ env.draws l = true then
    let t := t.drawCursor w false
    if env.returns l then (t.drawCursor w true, true) else (t, false)
  else (t, env.returns l)

/-- `ExecuteLine`, and whether it returns. -/
def executeLine (t : LineTerminal σ) : LineTerminal σ × Bool :=
  let l := CommandLine.ofLine (line t.linebuf)
  if l.redirDest.all env.opens then
    let t := if l.subcommand.isSome then t.onScreen w.readLayerID else t
    let (t, returned) := executeCommand w env l t
    if !returned then (t, false)
    else if l.subcommand.isSome then
      if env.finishes l then (t.onScreen w.readLayerID, true) else (t, false)
    else (t, true)
  else (t, true)

/-- A character of a `std::string`, as an argument of `InputKey`. -/
def unicodeOfChar (c : UInt8) : UInt32 := c.toInt8.toInt32.toUInt32

/-- The loop of `TaskTerminal` over the command line, as far as its commands return. -/
def inputKeys : LineTerminal σ → List UInt8 → LineTerminal σ
  | t, [] => t
  | t, c :: cs =>
    if unicodeOfChar c = 0x0a then
      let entered := (t.drawCursor w false).enter w
      if (executeLine w env entered).2 then
        inputKeys (t.inputKey w f (fun t => (executeLine w env t).1) 0 0x0a).1 cs
      else (executeLine w env entered).1
    else inputKeys (t.inputKey w f (fun t => t) 0 (unicodeOfChar c)).1 cs

/-- A terminal that shows no window. -/
def hidden (s : σ) : LineTerminal σ where
  cursor := ⟨0, 0⟩
  showWindow := false
  window := s
  linebuf _ := 0
  linebufIndex := 0
  cmdHistory := List.replicate 8 fun _ => 0
  cmdHistoryIndex := -1

/-- `TaskTerminal` of such a terminal, up to its `Finish`. -/
def taskTerminal (s : σ) (commandLine : List UInt8) : LineTerminal σ :=
  if commandLine = [] then hidden s else inputKeys w f env (hidden s) (commandLine ++ [0x0a])

/-- Whether `window_` has been followed, or `layer_id_` read. -/
def nullScreen : TerminalScreen Bool where
  write _ _ _ := true
  move _ _ _ _ := true
  readWindow _ := true
  readLayerID _ := true

/-- What a character does to the line. -/
def typeChar (l : List UInt8) (c : UInt8) : List UInt8 :=
  if c = 0x08 then l.dropLast else if c ≠ 0 ∧ l.length < 47 then l ++ [c] else l

/-- The line that is typed before the first Enter key. -/
def typedLine (commandLine : List UInt8) : List UInt8 := (commandLine.takeWhile fun c => c ≠ 0x0a).foldl typeChar []

/-- A line whose command is come to and never returns, without a `|`. -/
def Endless (l : CommandLine) : Prop :=
  l.redirDest.all env.opens = true ∧ l.subcommand = none ∧ l.command ≠ ys ∧ env.returns l = false

variable {w f env} {t : LineTerminal Bool} {l : List UInt8}

/-! ### What a hidden terminal draws -/

theorem drawCursor_hidden {t : LineTerminal σ} (h : t.showWindow = false) (visible : Bool) :
    t.drawCursor w visible = t := by
  unfold drawCursor Terminal.drawCursor
  rw [if_neg (by rw [h]; exact Bool.false_ne_true)]

theorem clear_hidden {t : LineTerminal σ} (h : t.showWindow = false) :
    t.clear w = { t with cursor := ⟨t.cursor.x, 0⟩ } := by
  unfold clear
  rw [if_neg (by rw [h]; exact Bool.false_ne_true)]

theorem printChar_hidden {t : LineTerminal σ} (h : t.showWindow = false) (c : UInt32) : t.printChar w f c = t := by
  unfold printChar Terminal.printChar
  rw [if_pos (by rw [h]; rfl)]

/-- A prompt that is printed follows `window_`. -/
theorem printText_hidden {t : LineTerminal σ} (h : t.showWindow = false) (text : List UInt32) :
    t.printText w f text = (t.onScreen w.readWindow).onScreen w.readLayerID := by
  have hfold : text.foldl (fun t c => t.printChar w f c) t = t := by
    induction text with
    | nil => rfl
    | cons c text ih => rw [List.foldl_cons, printChar_hidden h, ih]
  unfold printText
  simp only [drawCursor_hidden h, hfold]

/-! ### The line is typed -/

/-- While the line `l` is typed. -/
structure Typed (t : LineTerminal Bool) (l : List UInt8) : Prop where
  shown : t.showWindow = false
  window : t.window = false
  cursor : t.cursor = ⟨l.length, 0⟩
  index : t.linebufIndex = l.length
  buffer : ∀ i (hi : i < l.length), t.linebuf i = l[i]
  short : l.length ≤ 47
  nonzero : 0 ∉ l

theorem toUInt8_unicodeOfChar (c : UInt8) : (unicodeOfChar c).toUInt8 = c := by
  have hall : ∀ n < 256, (unicodeOfChar (.ofNat n)).toUInt8 = .ofNat n := by decide +kernel
  have hc := hall c.toNat c.toNat_lt
  rwa [UInt8.ofNat_toNat] at hc

/-- A character is a control character where its code is. -/
theorem unicodeOfChar_eq {c k : UInt8} (hk : unicodeOfChar k = k.toUInt32) : unicodeOfChar c = k.toUInt32 ↔ c = k := by
  constructor
  · intro h
    rw [← hk] at h
    rw [← toUInt8_unicodeOfChar c, h, toUInt8_unicodeOfChar]
  · rintro rfl
    exact hk

theorem unicodeOfChar_newline {c : UInt8} : unicodeOfChar c = 0x0a ↔ c = 0x0a :=
  unicodeOfChar_eq (k := 0x0a) (by decide)

theorem unicodeOfChar_backspace {c : UInt8} : unicodeOfChar c = 0x08 ↔ c = 0x08 :=
  unicodeOfChar_eq (k := 0x08) (by decide)

theorem unicodeOfChar_zero {c : UInt8} : unicodeOfChar c = 0 ↔ c = 0 := unicodeOfChar_eq (k := 0) (by decide)

theorem typed_hidden : Typed (hidden false) [] where
  shown := rfl
  window := rfl
  cursor := rfl
  index := rfl
  buffer := fun i hi => absurd hi (Nat.not_lt_zero i)
  short := Nat.zero_le 47
  nonzero := List.not_mem_nil

theorem Typed.backspace (h : Typed t l) (drawArea : Rectangle) :
    Typed (t.backspace nullScreen drawArea).1 l.dropLast := by
  unfold LineTerminal.backspace
  split
  next hpos =>
    rw [h.cursor] at hpos
    have hlength : l.dropLast.length = l.length - 1 := List.length_dropLast
    have hlt : 0 < l.length := by simpa using hpos
    dsimp only
    rw [if_neg (by rw [h.shown]; exact Bool.false_ne_true)]
    refine ⟨h.shown, h.window, ?_, ?_, fun i hi => ?_, ?_, fun hmem => h.nonzero (List.mem_of_mem_dropLast hmem)⟩
    · rw [h.cursor, hlength]
      simp only [Vector2D.mk.injEq, and_true]
      omega
    · rw [hlength]
      exact congrArg (· - 1) h.index
    · rw [List.getElem_dropLast]
      exact h.buffer i _
    · have := h.short
      omega
  next hzero =>
    rw [h.cursor] at hzero
    have hnil : l = [] := List.eq_nil_of_length_eq_zero (by simpa using hzero)
    subst hnil
    exact h

theorem Typed.type (h : Typed t l) {c : UInt8} (hc : c ≠ 0) :
    Typed (t.type nullScreen f (unicodeOfChar c)) (if c ≠ 0 ∧ l.length < 47 then l ++ [c] else l) := by
  have hindex := h.index
  have hshort := h.short
  unfold LineTerminal.type
  rw [h.cursor]
  split
  next hroom =>
    have hlt : l.length < 47 := by
      unfold Terminal.kColumns at hroom
      dsimp only at hroom
      omega
    rw [if_pos ⟨hc, hlt⟩]
    dsimp only
    rw [if_neg (by rw [h.shown]; exact Bool.false_ne_true)]
    refine ⟨h.shown, h.window, ?_, ?_, fun i hi => ?_, ?_, ?_⟩
    · simp [h.cursor]
    · simp [hindex]
    · change Function.update t.linebuf t.linebufIndex (unicodeOfChar c).toUInt8 i = _
      rw [toUInt8_unicodeOfChar, hindex]
      rcases Nat.lt_succ_iff_lt_or_eq.mp (by simpa using hi) with hold | rfl
      · rw [Function.update_of_ne (Nat.ne_of_lt hold), List.getElem_append_left hold]
        exact h.buffer i hold
      · simp
    · simp
      omega
    · intro hmem
      rcases List.mem_append.mp hmem with hold | hnew
      · exact h.nonzero hold
      · exact hc (List.mem_singleton.mp hnew).symm
  next hfull =>
    have hge : ¬ l.length < 47 := by
      unfold Terminal.kColumns kLineMax at hfull
      dsimp only at hfull
      omega
    rw [if_neg fun hroom => hge hroom.2]
    exact h

/-- **A character is typed.** -/
theorem Typed.inputKey (h : Typed t l) (g : LineTerminal Bool → LineTerminal Bool) {c : UInt8} (hc : c ≠ 0x0a) :
    Typed (t.inputKey nullScreen f g 0 (unicodeOfChar c)).1 (typeChar l c) := by
  rw [inputKey_fst _ _ _ _ _ (fun hn => hc (unicodeOfChar_newline.mp hn)), drawCursor_hidden h.shown]
  have hbody : ∀ area, Typed (t.inputKeyBody nullScreen f (unicodeOfChar c) 0 area).1 (typeChar l c) := by
    intro area
    unfold inputKeyBody typeChar
    split
    next hback =>
      rw [if_pos (unicodeOfChar_backspace.mp hback)]
      exact h.backspace area
    next hback =>
      rw [if_neg fun hb => hback (unicodeOfChar_backspace.mpr hb)]
      split
      next hne => exact h.type fun hzero => hne (unicodeOfChar_zero.mpr hzero)
      next hzero =>
        have hc : c = 0 := unicodeOfChar_zero.mp (not_not.mp hzero)
        subst hc
        exact h
  rw [drawCursor_hidden (hbody _).shown]
  exact hbody _

/-- A line is the characters before its terminator. -/
theorem line_eq {buf : ℕ → UInt8} (hbuf : ∀ i (hi : i < l.length), buf i = l[i]) (hend : buf l.length = 0)
    (hshort : l.length < kLineMax) (hnonzero : 0 ∉ l) : line buf = l := by
  have hlength : l.length < ((List.range kLineMax).map buf).length := by simpa using hshort
  have htake : ((List.range kLineMax).map buf).take l.length = l := by
    refine List.ext_getElem (by simp [Nat.le_of_lt hshort]) fun i hi hi' => ?_
    rw [List.getElem_take, List.getElem_map, List.getElem_range]
    exact hbuf i hi'
  have hdrop : ((List.range kLineMax).map buf).drop l.length =
      0 :: ((List.range kLineMax).map buf).drop (l.length + 1) := by
    rw [List.drop_eq_getElem_cons hlength, List.getElem_map, List.getElem_range, hend]
  have hsplit := List.take_append_drop l.length ((List.range kLineMax).map buf)
  rw [htake, hdrop] at hsplit
  unfold line
  rw [← hsplit]
  exact CommandLine.stringAt_terminated hnonzero

/-- The line that an Enter key ends. -/
theorem Typed.enter (h : Typed t l) : line (t.enter nullScreen).linebuf = l ∧ (t.enter nullScreen).showWindow = false ∧
    (t.enter nullScreen).window = false := by
  have hrow : t.cursor.y < Terminal.kRows - 1 := by
    rw [h.cursor]
    exact show (0 : ℤ) < Terminal.kRows - 1 by decide
  have hnewline : t.toTerminal.newline nullScreen.toTerminalWindow =
      { t.toTerminal with cursor := ⟨0, t.cursor.y + 1⟩ } := if_pos hrow
  refine ⟨?_, ?_, ?_⟩
  · change line (Function.update t.linebuf t.linebufIndex 0) = l
    rw [h.index]
    refine line_eq (fun i hi => ?_) (Function.update_self ..) (Nat.lt_of_le_of_lt h.short (by decide)) h.nonzero
    rw [Function.update_of_ne (Nat.ne_of_lt hi)]
    exact h.buffer i hi
  · change (t.toTerminal.newline nullScreen.toTerminalWindow).showWindow = false
    rw [hnewline]
    exact h.shown
  · change (t.toTerminal.newline nullScreen.toTerminalWindow).window = false
    rw [hnewline]
    exact h.window

/-! ### What has been touched -/

/-- A hidden terminal of which the window or the layer has been used. -/
structure Touched (t : LineTerminal Bool) : Prop where
  shown : t.showWindow = false
  window : t.window = true

theorem writeAll_touched {w : PixelWriter Bool} (hw : ∀ s p c, w.write s p c = true) (ps : List Vector2D)
    (c : PixelColor) :
    w.writeAll true ps c = true := by
  unfold PixelWriter.writeAll
  induction ps with
  | nil => rfl
  | cons p ps ih => rw [List.foldl_cons, hw, ih]

variable (w env) in
/-- The command of a line draws nothing. -/
theorem executeCommand_hidden {t : LineTerminal σ} (h : t.showWindow = false) (l : CommandLine) :
    (executeCommand w env l t).1.showWindow = false ∧ (executeCommand w env l t).1.window = t.window ∧
      ((executeCommand w env l t).2 = true ↔ l.command = ys ∨ env.returns l = true) := by
  unfold executeCommand
  simp only [drawCursor_hidden h, clear_hidden h]
  split
  next hys => exact ⟨h, rfl, fun _ => .inl hys, fun _ => rfl⟩
  next hys =>
    split
    · split
      next hret => exact ⟨h, rfl, fun _ => .inr hret, fun _ => rfl⟩
      next hret => exact ⟨h, rfl, fun hf => absurd hf Bool.false_ne_true, fun hr => absurd hr (by simp [hys, hret])⟩
    · exact ⟨h, rfl, .inr, fun hr => hr.resolve_left hys⟩

theorem scroll1_touched (u : Terminal Bool) : (u.scroll1 nullScreen.toTerminalWindow).window = true := by
  dsimp only [Terminal.scroll1, PixelWriter.fillRectangle]
  exact writeAll_touched (fun _ _ _ => rfl) _ _

theorem Touched.enter (h : t.Touched) : (t.enter nullScreen).Touched := by
  have hnewline : (t.toTerminal.newline nullScreen.toTerminalWindow).showWindow = false ∧
      (t.toTerminal.newline nullScreen.toTerminalWindow).window = true := by
    unfold Terminal.newline
    dsimp only
    split
    · exact ⟨h.shown, h.window⟩
    · exact ⟨h.shown, scroll1_touched _⟩
  exact ⟨hnewline.1, hnewline.2⟩

variable (env) in
theorem Touched.executeCommand (h : t.Touched) (l : CommandLine) : (executeCommand nullScreen env l t).1.Touched := by
  obtain ⟨hshown, hwindow, -⟩ := executeCommand_hidden nullScreen env h.shown l
  exact ⟨hshown, hwindow.trans h.window⟩

theorem Touched.executeLine (h : t.Touched) : (executeLine nullScreen env t).1.Touched := by
  unfold LineTerminal.executeLine
  dsimp only
  generalize CommandLine.ofLine (line t.linebuf) = l
  split
  · cases l.subcommand with
    | none =>
      have hcommand := h.executeCommand env l
      simp only [Option.isSome_none, Bool.false_eq_true, if_false]
      split <;> exact hcommand
    | some sub =>
      have hcommand := Touched.executeCommand env (t := t.onScreen nullScreen.readLayerID) ⟨h.shown, rfl⟩ l
      simp only [Option.isSome_some, if_true]
      split
      · exact hcommand
      · split
        · exact ⟨hcommand.shown, rfl⟩
        · exact hcommand
  · exact h

theorem Touched.inputKeyBody (h : t.Touched) (c : UInt8) (area : Rectangle) :
    (t.inputKeyBody nullScreen f (unicodeOfChar c) 0 area).1.Touched := by
  unfold LineTerminal.inputKeyBody
  split
  · unfold LineTerminal.backspace
    dsimp only
    rw [if_neg (c := t.showWindow = true) (by rw [h.shown]; exact Bool.false_ne_true)]
    split
    · exact ⟨h.shown, h.window⟩
    · exact h
  · split
    · unfold LineTerminal.type
      dsimp only
      rw [if_neg (c := t.showWindow = true) (by rw [h.shown]; exact Bool.false_ne_true)]
      split
      · exact ⟨h.shown, h.window⟩
      · exact h
    next hzero =>
      rw [not_not.mp hzero]
      exact h

/-- An Enter key whose command returns touches the window. -/
theorem touched_enter (g : LineTerminal Bool → LineTerminal Bool)
    (hg : (g ((t.drawCursor nullScreen false).enter nullScreen)).showWindow = false) :
    (t.inputKey nullScreen f g 0 0x0a).1.Touched := by
  unfold inputKey
  rw [if_pos rfl]
  dsimp only
  rw [printText_hidden hg, drawCursor_hidden (by exact hg)]
  exact ⟨hg, rfl⟩

theorem Touched.inputKeys {cs : List UInt8} (h : t.Touched) : (inputKeys nullScreen f env t cs).Touched := by
  induction cs generalizing t with
  | nil => exact h
  | cons c cs ih =>
    unfold LineTerminal.inputKeys
    dsimp only
    split
    · rw [drawCursor_hidden h.shown]
      split
      · refine ih (touched_enter _ ?_)
        rw [drawCursor_hidden h.shown]
        exact h.enter.executeLine.shown
      · exact h.enter.executeLine
    next hne =>
      refine ih ?_
      rw [inputKey_fst _ _ _ _ _ hne, drawCursor_hidden h.shown]
      have hbody := h.inputKeyBody (f := f) c ⟨t.toTerminal.calcCursorPos, ⟨8 * 2, 16⟩⟩
      rw [drawCursor_hidden hbody.shown]
      exact hbody

/-! ### The first line -/

variable (env) in
/-- **A line executed** by a hidden terminal that has touched nothing: it does not return and touches
nothing, or it returns, or it touches the layer. -/
theorem executeLine_hidden (hshown : t.showWindow = false) (hwindow : t.window = false) :
    (executeLine nullScreen env t).1.showWindow = false ∧
      (Endless env (.ofLine (line t.linebuf)) →
        (executeLine nullScreen env t).2 = false ∧ (executeLine nullScreen env t).1.window = false) ∧
      (¬ Endless env (.ofLine (line t.linebuf)) →
        (executeLine nullScreen env t).2 = true ∨ (executeLine nullScreen env t).1.window = true) := by
  unfold LineTerminal.executeLine
  dsimp only
  generalize CommandLine.ofLine (line t.linebuf) = l
  split
  next hopens =>
    cases hsub : l.subcommand with
    | none =>
      obtain ⟨hs, hw, hret⟩ := executeCommand_hidden nullScreen env hshown l
      simp only [Option.isSome_none, Bool.false_eq_true, if_false]
      split
      next hnot =>
        refine ⟨hs, fun _ => ⟨rfl, hw.trans hwindow⟩, fun hendless => absurd ⟨hopens, hsub, ?_⟩ hendless⟩
        have hno := mt hret.mpr (by simpa using hnot)
        exact ⟨fun hys => hno (.inl hys), Bool.eq_false_iff.mpr fun hr => hno (.inr hr)⟩
      next hyes =>
        refine ⟨hs, fun hendless => ?_, fun _ => .inl rfl⟩
        have hreturned := hret.mp (by simpa using hyes)
        exact absurd hreturned (by simp [hendless.2.2.1, hendless.2.2.2])
    | some sub =>
      have hcalled : (t.onScreen nullScreen.readLayerID).showWindow = false := hshown
      obtain ⟨hs, hw, -⟩ := executeCommand_hidden nullScreen env hcalled l
      simp only [Option.isSome_some, if_true]
      refine ⟨?_, fun hendless => ?_, fun _ => .inr ?_⟩
      · split
        · exact hs
        · split <;> exact hs
      · rw [hendless.2.1] at hsub
        cases hsub
      · split
        · exact hw
        · split
          · rfl
          · exact hw
  next hclosed => exact ⟨hshown, fun hendless => absurd hendless.1 hclosed, fun _ => .inl rfl⟩

/-- An Enter key, where nothing has been touched yet. -/
theorem Typed.newline (h : t.Typed l) (rest : List UInt8) :
    (inputKeys nullScreen f env t (0x0a :: rest)).window = false ↔ Endless env (.ofLine l) := by
  obtain ⟨hline, hshown, hwindow⟩ := h.enter
  obtain ⟨hs, hendless, hother⟩ := executeLine_hidden env hshown hwindow
  rw [hline] at hendless hother
  unfold LineTerminal.inputKeys
  rw [if_pos (unicodeOfChar_newline.mpr rfl), drawCursor_hidden h.shown]
  dsimp only
  constructor
  · intro hfalse
    by_contra hnot
    split at hfalse
    · have htouched :
          (t.inputKey nullScreen f (fun t => (LineTerminal.executeLine nullScreen env t).1) 0 0x0a).1.Touched :=
        touched_enter _ (by rw [drawCursor_hidden h.shown]; exact hs)
      rw [htouched.inputKeys.window] at hfalse
      cases hfalse
    next hret =>
      rw [(hother hnot).resolve_left hret] at hfalse
      cases hfalse
  · intro hyes
    rw [(hendless hyes).1]
    exact (hendless hyes).2

theorem Typed.untouched_iff (h : t.Typed l) (cs : List UInt8) :
    (inputKeys nullScreen f env t (cs ++ [0x0a])).window = false ↔
      Endless env (.ofLine ((cs.takeWhile fun c => c ≠ 0x0a).foldl typeChar l)) := by
  induction cs generalizing t l with
  | nil => exact h.newline []
  | cons c cs ih =>
    by_cases hc : c = 0x0a
    · subst hc
      exact h.newline (cs ++ [0x0a])
    · rw [List.takeWhile_cons_of_pos (p := fun c => decide (c ≠ 0x0a)) (decide_eq_true hc), List.foldl_cons,
        List.cons_append, LineTerminal.inputKeys, if_neg fun hn => hc (unicodeOfChar_newline.mp hn)]
      exact ih (h.inputKey _ hc)

/-- **A terminal without a window** uses neither `window_` nor `layer_id_` exactly when there is nothing to
type, or the first line it executes is a command without a `|` that never returns. -/
theorem window_untouched_iff (f : Font) (env : Commands) (commandLine : List UInt8) :
    (taskTerminal nullScreen f env false commandLine).window = false ↔
      commandLine = [] ∨ Endless env (.ofLine (typedLine commandLine)) := by
  unfold taskTerminal
  split
  next hnil => exact ⟨fun _ => .inl hnil, fun _ => rfl⟩
  next hne => exact (typed_hidden.untouched_iff commandLine).trans ⟨.inr, fun h => h.resolve_left hne⟩

/-- The right-hand side of `xel a | lkurf`: `lkurf` returns, and the prompt is printed. -/
theorem prompt_touches_window :
    (taskTerminal nullScreen .empty ⟨fun _ => true, fun _ => true, fun _ => true, fun _ => true⟩
    false [0x6c, 0x6b, 0x75, 0x72, 0x66]).window = true := by
  decide +kernel

end LineTerminal

end DuvuvurKernel
