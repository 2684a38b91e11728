import DuvuvurKernel.Terminal.ArgVector
import Mathlib.Data.List.TakeWhile

/-!
# Command lines

`Terminal::ExecuteLine` takes its line apart in place: it finds the first space, the first
`>` and the first `|`, and then writes a terminator over each, and skips the white space
behind it.

## The model

`linebuf_` is the list of its characters up to the terminator, and a pointer into it is an
offset; a list that ends is read like a terminator. What is read later than it is found is
read from the buffer as it is then.

**Result** (`of_parts`): where a space comes before the first `|` and the first `>`, the parts
are what stands between them.
-/

namespace DuvuvurKernel

/-- What `ExecuteLine` finds in its line. -/
structure CommandLine where
  /-- `command`. -/
  command : List UInt8
  /-- `first_arg`, unless it is null. -/
  firstArg : Option (List UInt8)
  /-- `redir_dest`, if there is a `>`. -/
  redirDest : Option (List UInt8)
  /-- `subcommand`, if there is a `|`. -/
  subcommand : Option (List UInt8)
  deriving DecidableEq

namespace CommandLine

/-- The string at an offset of a buffer. -/
def stringAt (buf : List UInt8) (p : ℕ) : List UInt8 := (buf.drop p).takeWhile fun c => c ≠ 0

/-- `strchr`, in the string at the start of a buffer. -/
def strchr (buf : List UInt8) (c : UInt8) : Option ℕ := (stringAt buf 0).findIdx? fun b => b = c

/-- The first offset that is not white space. -/
def skipSpace (buf : List UInt8) (p : ℕ) : ℕ := p + ((buf.drop p).takeWhile isspace).length

/-- A terminator is written, where a pointer is not null. -/
def terminate (buf : List UInt8) : Option ℕ → List UInt8
  | none => buf
  | some p => buf.set p 0

/-- `ExecuteLine` up to the command. -/
def ofLine (linebuf : List UInt8) : CommandLine :=
  let firstArg := strchr linebuf 0x20
  let redirChar := strchr linebuf 0x3e
  let pipeChar := strchr linebuf 0x7c
  let linebuf := terminate linebuf firstArg
  let firstArg := firstArg.map fun p => skipSpace linebuf (p + 1)
  let linebuf := terminate linebuf redirChar
  let redirDest := redirChar.map fun p => stringAt linebuf (skipSpace linebuf (p + 1))
  let linebuf := terminate linebuf pipeChar
  let subcommand := pipeChar.map fun p => stringAt linebuf (skipSpace linebuf (p + 1))
  ⟨stringAt linebuf 0, firstArg.map (stringAt linebuf), redirDest, subcommand⟩

example : ofLine [0x61, 0x20, 0x7c, 0x20, 0x62, 0x20, 0x63, 0x20, 0x3e, 0x20, 0x64] =
    ⟨[0x61], some [], some [0x64], some [0x62, 0x20, 0x63, 0x20]⟩ := by decide

/-! ### Strings in a buffer -/

variable {a b v z : List UInt8} {c : UInt8}

theorem takeWhile_ne_zero (h : 0 ∉ a) : a.takeWhile (fun c => c ≠ 0) = a :=
  List.takeWhile_eq_self_iff.mpr fun _ hc => decide_eq_true fun hzero => h (hzero ▸ hc)

theorem stringAt_zero (h : 0 ∉ a) : stringAt a 0 = a := takeWhile_ne_zero h

theorem stringAt_terminated (h : 0 ∉ a) : stringAt (a ++ 0 :: z) 0 = a := by
  unfold stringAt
  rw [List.drop_zero, List.takeWhile_append, takeWhile_ne_zero h, if_pos rfl]
  exact List.append_nil a

theorem strchr_none (h : c ∉ a) : strchr a c = none := by
  rw [strchr, List.findIdx?_eq_none_iff]
  intro b hb
  have hmem : b ∈ a := (List.takeWhile_prefix _).subset hb
  exact decide_eq_false fun he => h (he ▸ hmem)

/-- The first of its kind. -/
theorem strchr_some (hc : c ≠ 0) (hzero : 0 ∉ a) (h : c ∉ a) : strchr (a ++ c :: z) c = some a.length := by
  have hpos : (fun c : UInt8 => decide (c ≠ 0)) c = true := decide_eq_true hc
  have hstring : stringAt (a ++ c :: z) 0 = a ++ c :: z.takeWhile fun c => c ≠ 0 := by
    unfold stringAt
    rw [List.drop_zero, List.takeWhile_append, takeWhile_ne_zero hzero, if_pos rfl,
      List.takeWhile_cons_of_pos (p := fun c : UInt8 => decide (c ≠ 0)) hpos]
  have hnone : a.findIdx? (fun b => b = c) = none :=
    List.findIdx?_eq_none_iff.mpr fun b hb => decide_eq_false fun he => h (he ▸ hb)
  rw [strchr, hstring, List.findIdx?_append, hnone, List.findIdx?_cons]
  simp

theorem terminate_some (a z : List UInt8) (c : UInt8) : terminate (a ++ c :: z) (some a.length) = a ++ 0 :: z := by
  rw [terminate, List.set_append_right _ _ (Nat.le_refl _), Nat.sub_self, List.set_cons_zero]

/-- White space ends with what comes behind it. -/
theorem skipSpace_append (a : List UInt8) (hz : ∀ c ∈ z.head?, isspace c = false) :
    skipSpace (a ++ (v ++ z)) a.length = a.length + (v.takeWhile isspace).length := by
  have hnil : z.takeWhile isspace = [] := by
    cases z with
    | nil => rfl
    | cons c z => exact List.takeWhile_cons_of_neg (Bool.eq_false_iff.mp (hz c rfl))
  rw [skipSpace, List.drop_left, List.takeWhile_append, hnil]
  split
  next hall => rw [List.append_nil, hall]
  next => rfl

/-- What is left of a part behind its white space. -/
theorem stringAt_skipped (a : List UInt8) (hv : 0 ∉ v) (hz : ∀ c ∈ z.head?, c = 0) :
    stringAt (a ++ (v ++ z)) (a.length + (v.takeWhile isspace).length) = v.dropWhile isspace := by
  have hsplit : v ++ z = v.takeWhile isspace ++ (v.dropWhile isspace ++ z) := by
    rw [← List.append_assoc, List.takeWhile_append_dropWhile]
  have hnil : z.takeWhile (fun c => c ≠ 0) = [] := by
    cases z with
    | nil => rfl
    | cons c z => exact List.takeWhile_cons_of_neg fun hne => of_decide_eq_true hne (hz c rfl)
  have hrest : 0 ∉ v.dropWhile isspace := fun h => hv ((List.dropWhile_suffix _).subset h)
  rw [hsplit, ← List.append_assoc, stringAt, ← List.length_append, List.drop_left, List.takeWhile_append,
    takeWhile_ne_zero hrest, if_pos rfl, hnil, List.append_nil]

/-! ### The parts of a line -/

/-- What a character introduces, if anything. -/
def part (c : UInt8) (r : Option (List UInt8)) : List UInt8 := r.elim [] (c :: ·)

variable {r d : Option (List UInt8)}

theorem strchr_part (hc : c ≠ 0) (hzero : 0 ∉ a) (h : c ∉ a) (hz : c ∉ z) :
    strchr (a ++ (part c r ++ z)) c = r.map fun _ => a.length := by
  cases r with
  | none => exact strchr_none fun hmem => (List.mem_append.mp hmem).elim h hz
  | some r => exact strchr_some hc hzero h

theorem terminate_part (a z : List UInt8) (c : UInt8) (r : Option (List UInt8)) :
    terminate (a ++ (part c r ++ z)) (r.map fun _ => a.length) = a ++ (part 0 r ++ z) := by
  cases r with
  | none => rfl
  | some r => exact terminate_some a (r ++ z) c

/-- The string behind a character, and behind the white space there. -/
theorem stringAt_part (hr : ∀ v ∈ r, 0 ∉ v) (hz : ∀ c ∈ z.head?, c = 0) :
    (r.map fun _ => a.length).map (fun p => stringAt (a ++ (part 0 r ++ z))
    (skipSpace (a ++ (part 0 r ++ z)) (p + 1))) =
      r.map (List.dropWhile isspace) := by
  cases r with
  | none => rfl
  | some v =>
    have hsplit : a ++ (part 0 (some v) ++ z) = (a ++ [0]) ++ (v ++ z) := by simp [part]
    have hlength : a.length + 1 = (a ++ [0]).length := by simp
    rw [Option.map_some, Option.map_some, Option.map_some, hsplit, hlength,
      skipSpace_append _ fun c hc => hz c hc ▸ rfl, stringAt_skipped _ (hr v rfl) hz]

theorem head_parts {x c' : UInt8} (h : x ∈ (part c r ++ part c' d).head?) : x = c ∨ x = c' := by
  cases r with
  | none =>
    cases d with
    | none => cases h
    | some d => exact .inr (Option.some.inj h).symm
  | some r => exact .inl (Option.some.inj h).symm

theorem mem_part {x : UInt8} (h : x ∈ part c r) : x = c ∨ ∃ r' ∈ r, x ∈ r' := by
  cases r with
  | none => cases h
  | some r => exact (List.mem_cons.mp h).imp_right fun hmem => ⟨r, rfl, hmem⟩

/-- **The parts of a line** are what stands between the first space, the first `|` and the first `>`,
where they come in this order. -/
theorem of_parts {w : List UInt8} (hw : 0x20 ∉ w) (hplain : ∀ c ∈ w ++ v, c ≠ 0 ∧ c ≠ 0x7c ∧ c ≠ 0x3e)
    (hr : ∀ r' ∈ r, ∀ c ∈ r', c ≠ 0 ∧ c ≠ 0x3e) (hd : ∀ d' ∈ d, ∀ c ∈ d', c ≠ 0 ∧ c ≠ 0x7c) :
    ofLine ((w ++ 0x20 :: v) ++ (part 0x7c r ++ part 0x3e d)) =
      ⟨w, some (v.dropWhile isspace), d.map (List.dropWhile isspace), r.map (List.dropWhile isspace)⟩ := by
  have hwzero : 0 ∉ w := fun h => (hplain 0 (List.mem_append_left _ h)).1 rfl
  have hvzero : 0 ∉ v := fun h => (hplain 0 (List.mem_append_right _ h)).1 rfl
  have hseg : ∀ c ∈ w ++ 0x20 :: v, c ≠ 0 ∧ c ≠ 0x7c ∧ c ≠ 0x3e := by
    intro c hc
    rcases List.mem_append.mp hc with hc | hc
    · exact hplain c (List.mem_append_left _ hc)
    · rcases List.mem_cons.mp hc with rfl | hc
      · decide
      · exact hplain c (List.mem_append_right _ hc)
  have hbefore : ∀ c ∈ (w ++ 0x20 :: v) ++ part 0x7c r, c ≠ 0 ∧ c ≠ 0x3e := by
    intro c hc
    rcases List.mem_append.mp hc with hc | hc
    · exact ⟨(hseg c hc).1, (hseg c hc).2.2⟩
    · rcases mem_part hc with rfl | ⟨r', hr', hc⟩
      · decide
      · exact hr r' hr' c hc
  have hnopipe : 0x7c ∉ part 0x3e d := by
    intro h
    rcases mem_part h with h | ⟨d', hd', h⟩
    · exact absurd h (by decide)
    · exact (hd d' hd' _ h).2 rfl
  have hspace : strchr ((w ++ 0x20 :: v) ++ (part 0x7c r ++ part 0x3e d)) 0x20 = some w.length := by
    rw [List.append_assoc, List.cons_append]
    exact strchr_some (by decide) hwzero hw
  have hredir : strchr ((w ++ 0x20 :: v) ++ (part 0x7c r ++ part 0x3e d)) 0x3e =
      d.map fun _ => ((w ++ 0 :: v) ++ part 0x7c r).length := by
    have hfound := strchr_part (r := d) (z := []) (by decide) (fun h => (hbefore 0 h).1 rfl)
      (fun h => (hbefore 0x3e h).2 rfl) List.not_mem_nil
    simpa using hfound
  have hpipe : strchr ((w ++ 0x20 :: v) ++ (part 0x7c r ++ part 0x3e d)) 0x7c =
      r.map fun _ => (w ++ 0 :: v).length := by
    have hfound := strchr_part (r := r) (by decide) (fun h => (hseg 0 h).1 rfl) (fun h => (hseg 0x7c h).2.1 rfl) hnopipe
    simpa using hfound
  -- the buffer after each of the three terminators
  have hfirst : terminate ((w ++ 0x20 :: v) ++ (part 0x7c r ++ part 0x3e d)) (some w.length) =
      ((w ++ 0 :: v) ++ part 0x7c r) ++ (part 0x3e d ++ []) := by
    rw [List.append_assoc, List.cons_append, terminate_some]
    simp
  have hsecond : ((w ++ 0 :: v) ++ part 0x7c r) ++ (part 0 d ++ []) = (w ++ 0 :: v) ++ (part 0x7c r ++ part 0 d) := by
    simp
  have hskip : skipSpace (((w ++ 0 :: v) ++ part 0x7c r) ++ (part 0x3e d ++ [])) (w.length + 1) =
      (w ++ [0]).length + (v.takeWhile isspace).length := by
    have hsplit : ((w ++ 0 :: v) ++ part 0x7c r) ++ (part 0x3e d ++ []) =
        (w ++ [0]) ++ (v ++ (part 0x7c r ++ part 0x3e d)) := by simp
    have hlength : w.length + 1 = (w ++ [0]).length := by simp
    rw [hsplit, hlength]
    apply skipSpace_append
    intro c hc
    rcases head_parts hc with rfl | rfl <;> decide
  have hthird : (w ++ 0 :: v) ++ (part 0 r ++ part 0 d) = (w ++ [0]) ++ (v ++ (part 0 r ++ part 0 d)) := by simp
  unfold ofLine
  simp only [hspace, hredir, hpipe, hfirst, terminate_part, hsecond, Option.map_some, hskip]
  rw [CommandLine.mk.injEq]
  refine ⟨?_, congrArg some ?_, ?_, ?_⟩
  · rw [List.append_assoc, List.cons_append]
    exact stringAt_terminated hwzero
  · rw [hthird]
    exact stringAt_skipped _ hvzero fun c hc => (head_parts hc).elim id id
  · rw [← hsecond]
    exact stringAt_part (fun d' hd' h => (hd d' hd' 0 h).1 rfl) nofun
  · refine stringAt_part (fun r' hr' h => (hr r' hr' 0 h).1 rfl) fun c hc => ?_
    exact (head_parts (r := none) (c := 0) hc).elim id id

/-- A line of one word. -/
theorem of_word {w : List UInt8} (hw : ∀ c ∈ w, c ≠ 0 ∧ c ≠ 0x20 ∧ c ≠ 0x7c ∧ c ≠ 0x3e) :
    ofLine w = ⟨w, none, none, none⟩ := by
  have hspace : strchr w 0x20 = none := strchr_none fun h => (hw _ h).2.1 rfl
  have hpipe : strchr w 0x7c = none := strchr_none fun h => (hw _ h).2.2.1 rfl
  have hredir : strchr w 0x3e = none := strchr_none fun h => (hw _ h).2.2.2 rfl
  have hcommand : stringAt w 0 = w := stringAt_zero fun h => (hw _ h).1 rfl
  unfold ofLine
  simp only [hspace, hpipe, hredir, terminate, Option.map_none, hcommand]

end CommandLine

end DuvuvurKernel
