import DuvuvurKernel.Lang.Font
import DuvuvurKernel.Lib.Loops

/-!
# Copying a line, in pektakio and lurfa_kr

`CopyUTF8String` of the two viewers: a line goes into a buffer character by character, with spaces
for its tabs. The two are the same but for the width at which `lurfa_kr` stops.

## The model

A pointer is an offset from the start of the line or of the buffer. The bytes from `size` on are
not of the line, but the loop may look at some of them. A division by zero, an overflow of an `int`,
and a `memset`, `memcpy` or store outside of the buffer are undefined.

`Copied` says what of a line is copied, and with which column, as long as all goes well.

**Result** (`copy_iff`): the copy ends, with a terminator in the buffer, just when no tab is come
to while the tab width is not positive, and no byte at which the loop gets stuck: one that starts no
character. `lurfa_kr` gets past such a byte when its width is reached before an overflow.
-/

namespace DuvuvurKernel.Viewer

open Lib.Loops

/-- `sizeof(buf)` in `DrawLines`. -/
def bufSize : ℕ := 1024

/-- `INT_MAX`. -/
def intMax : ℤ := 2 ^ 31 - 1

/-- A sum of type `int`. -/
def addInt (a b : ℤ) : Option ℤ := if a + b ≤ intMax then some (a + b) else none

/-- The variables of `CopyUTF8String`, and the buffer. -/
structure CopyState where
  src : ℕ
  dst : ℕ
  x : ℤ
  buf : ℕ → UInt8

/-- A `memset` or `memcpy` of `n` bytes to `dst`. -/
def CopyState.fill (dstSize : ℕ) (s : CopyState) (n : ℤ) (byte : ℕ → UInt8) : Option CopyState :=
  if 0 ≤ n ∧ s.dst + n ≤ dstSize then
    some { s with
      dst := s.dst + n.toNat
      buf := fun i => if s.dst ≤ i ∧ i < s.dst + n.toNat then byte (i - s.dst) else s.buf i }
  else none

/-- What can be read from an offset of the text on. -/
def bytesFrom (text : ℕ → UInt8) (i : ℕ) : Bytes := fun k => some (text (i + k))

/-- The width is exceeded; pektakio has none. -/
def Exceeds (w : Option ℤ) (x : ℤ) : Prop := ∃ limit ∈ w, x > limit

instance decidableExceeds (w : Option ℤ) (x : ℤ) : Decidable (Exceeds w x) :=
  decidable_of_iff (w.any fun limit => x > limit) (by simp [Exceeds, Option.any_eq_true])

variable (f : Font) (w : Option ℤ) (text : ℕ → UInt8) (dstSize size : ℕ) (tab : ℤ)

/-- A round of the loop, at a tab. -/
def tabRound (s : CopyState) : Option (Next CopyState CopyState) :=
  if tab = 0 then none
  else
    let spaces := tab - s.x.tmod tab
    if dstSize ≤ s.dst + spaces then some (.done s)
    else do
      let x ← addInt s.x spaces
      let s ← s.fill dstSize spaces fun _ => 0x20
      return .goOn { s with src := s.src + 1, x := x }

/-- A round of the loop, at a character. -/
def charRound (s : CopyState) : Option (Next CopyState CopyState) := do
  let (u32, bytes) ← convertUTF8To32 (bytesFrom text s.src)
  let x ← addInt s.x (f.columns u32)
  let s := { s with x := x }
  if Exceeds w x then return .done s
  if size < s.src + bytes ∨ dstSize ≤ s.dst + bytes then return .done s
  let s ← s.fill dstSize bytes fun k => text (s.src + k)
  return .goOn { s with src := s.src + bytes }

/-- A round of the loop. -/
def copyRound (s : CopyState) : Option (Next CopyState CopyState) :=
  if text s.src = 0 then some (.done s)
  else if text s.src = 0x09 then tabRound dstSize tab s
  else charRound f w text dstSize size s

/-- The loop ends, and the terminator is stored in the buffer. -/
def CopyEnds (buf : ℕ → UInt8) (r : CopyState) : Prop :=
  ∃ s, Returns (copyRound f w text dstSize size tab) ⟨0, 0, 0, buf⟩ s ∧ s.dst < dstSize ∧
    r = { s with buf := Function.update s.buf s.dst 0 }

/-- `CopyUTF8String` of pektakio. -/
def Pektakio.CopyUTF8String (buf : ℕ → UInt8) (r : CopyState) : Prop := CopyEnds f none text dstSize size tab buf r

/-- `CopyUTF8String` of lurfa_kr, with its width. -/
def LurfaKr.CopyUTF8String (width : ℤ) (buf : ℕ → UInt8) (r : CopyState) : Prop :=
  CopyEnds f (some width) text dstSize size tab buf r

/-! ### What is copied -/

/-- The columns of the character at an offset. -/
def columnsAt (i : ℕ) : ℤ := (convertUTF8To32 (bytesFrom text i)).elim 0 fun c => f.columns c.1

/-- The characters and the tabs of the line that fit, one after the other: offsets of the text and of the buffer
up to which there are some, and the column. -/
inductive Copied : ℕ → ℕ → ℤ → Prop where
  | start : Copied 0 0 0
  | tab {src dst : ℕ} {x spaces : ℤ} : Copied src dst x → text src = 0x09 → 0 < tab → spaces = tab - x % tab →
      dst + spaces < dstSize → Copied (src + 1) (dst + spaces.toNat) (x + spaces)
  | char {src dst bytes : ℕ} {x : ℤ} : Copied src dst x → text src ≠ 0 → text src ≠ 0x09 →
      bytes = countUTF8Size (text src) → 0 < bytes → ¬ Exceeds w (x + columnsAt f text src) → src + bytes ≤ size →
      dst + bytes < dstSize → Copied (src + bytes) (dst + bytes) (x + columnsAt f text src)

/-- A byte that starts no character, in the line or right behind it. -/
def Stray (src : ℕ) : Prop := text src ≠ 0 ∧ countUTF8Size (text src) = 0 ∧ src ≤ size

/-- The width is reached in steps of some columns before an `int` overflows. -/
def Reaches (x step : ℤ) : Prop := ∃ n : ℕ, Exceeds w (x + (n + 1) * step) ∧ x + (n + 1) * step ≤ intMax

/-- A tab is come to only when the tab width is positive, and a byte that starts no character only when the width is
reached there. -/
def Passable : Prop := ∀ src dst x, Copied f w text dstSize size tab src dst x →
  (text src = 0x09 → 0 < tab) ∧ (Stray text size src → Reaches w x (columnsAt f text src))

variable {f w text dstSize size tab} {s s' r : CopyState} {n : ℤ}

theorem addInt_eq_some {a b : ℤ} (h : a + b ≤ intMax) : addInt a b = some (a + b) := if_pos h

theorem fill_eq_some {byte : ℕ → UInt8} (hn : 0 ≤ n) (hle : s.dst + n ≤ dstSize) :
    s.fill dstSize n byte = some { s with
      dst := s.dst + n.toNat
      buf := fun i => if s.dst ≤ i ∧ i < s.dst + n.toNat then byte (i - s.dst) else s.buf i } := if_pos ⟨hn, hle⟩

/-- Every byte of the text can be read: some character is decoded. -/
theorem exists_char (text : ℕ → UInt8) (i : ℕ) :
    ∃ u, convertUTF8To32 (bytesFrom text i) = some (u, countUTF8Size (text i)) :=
  convertUTF8To32_eq_some rfl fun _ _ => rfl

theorem columnsAt_eq {i : ℕ} {u : UInt32} {bytes : ℕ} (h : convertUTF8To32 (bytesFrom text i) = some (u, bytes)) :
    columnsAt f text i = f.columns u := by
  rw [columnsAt, h]
  rfl

theorem columnsAt_bounds (f : Font) (text : ℕ → UInt8) (i : ℕ) : 1 ≤ columnsAt f text i ∧ columnsAt f text i ≤ 2 := by
  obtain ⟨u, hu⟩ := exists_char text i
  rw [columnsAt_eq hu]
  unfold Font.columns
  split <;> decide

/-! ### One round -/

theorem copyRound_nul (h : text s.src = 0) : copyRound f w text dstSize size tab s = some (.done s) := if_pos h

theorem copyRound_tab (h : text s.src = 0x09) : copyRound f w text dstSize size tab s = tabRound dstSize tab s := by
  rw [copyRound, if_neg (by rw [h]; decide), if_pos h]

theorem copyRound_char (h0 : text s.src ≠ 0) (htab : text s.src ≠ 0x09) :
    copyRound f w text dstSize size tab s = charRound f w text dstSize size s := by
  rw [copyRound, if_neg h0, if_neg htab]

/-- A tab that does not fit ends the copy; the others give spaces. -/
theorem tabRound_of_pos (dstSize : ℕ) (s : CopyState) (htab : 0 < tab) (hx : 0 ≤ s.x) :
    (dstSize ≤ s.dst + (tab - s.x % tab) ∧ tabRound dstSize tab s = some (.done s)) ∨
    (s.dst + (tab - s.x % tab) < dstSize ∧ (s.x + (tab - s.x % tab) ≤ intMax → ∃ buf, tabRound dstSize tab s =
      some (.goOn ⟨s.src + 1, s.dst + (tab - s.x % tab).toNat, s.x + (tab - s.x % tab), buf⟩))) := by
  have hmod : s.x.tmod tab = s.x % tab := Int.tmod_eq_emod_of_nonneg hx
  have hlt := Int.emod_lt_of_pos s.x htab
  unfold tabRound
  rw [if_neg htab.ne', hmod]
  dsimp only
  by_cases hfull : dstSize ≤ s.dst + (tab - s.x % tab)
  · exact .inl ⟨hfull, if_pos hfull⟩
  · refine .inr ⟨not_le.mp hfull, fun hmax => ?_⟩
    rw [if_neg hfull, addInt_eq_some hmax, fill_eq_some (by omega) (by omega)]
    exact ⟨_, rfl⟩

/-- A tab of no width, or of a negative one, has no room. -/
theorem tabRound_of_nonpos (htab : tab ≤ 0) (hx : 0 ≤ s.x) (hdst : s.dst < dstSize) :
    tabRound dstSize tab s = none := by
  unfold tabRound
  rcases htab.eq_or_lt with rfl | hneg
  · exact if_pos rfl
  · have hmod := Int.tmod_nonneg tab hx
    rw [if_neg hneg.ne]
    dsimp only
    rw [if_neg (by omega)]
    cases addInt s.x (tab - s.x.tmod tab) with
    | none => rfl
    | some x =>
      rw [CopyState.fill, if_neg (by omega)]
      rfl
theorem charRound_overflow (h : intMax < s.x + columnsAt f text s.src) : charRound f w text dstSize size s = none := by
  obtain ⟨u, hu⟩ := exists_char text s.src
  rw [columnsAt_eq hu] at h
  have hnone : addInt s.x (f.columns u) = none := if_neg (not_le.mpr h)
  simp only [charRound, hu, Option.bind_eq_bind, Option.bind_some, hnone, Option.bind_none]

/-- A character ends the copy, or is copied. -/
theorem charRound_cases (f : Font) (w : Option ℤ) (text : ℕ → UInt8) (dstSize size : ℕ) (s : CopyState)
    (h : s.x + columnsAt f text s.src ≤ intMax) :
    ((Exceeds w (s.x + columnsAt f text s.src) ∨ size < s.src + countUTF8Size (text s.src) ∨
        dstSize ≤ s.dst + countUTF8Size (text s.src)) ∧
      ∃ s', s'.dst = s.dst ∧ charRound f w text dstSize size s = some (.done s')) ∨
    (¬ Exceeds w (s.x + columnsAt f text s.src) ∧ s.src + countUTF8Size (text s.src) ≤ size ∧
      s.dst + countUTF8Size (text s.src) < dstSize ∧ ∃ buf, charRound f w text dstSize size s =
        some (.goOn ⟨s.src + countUTF8Size (text s.src), s.dst + countUTF8Size (text s.src),
          s.x + columnsAt f text s.src, buf⟩)) := by
  obtain ⟨u, hu⟩ := exists_char text s.src
  rw [columnsAt_eq hu] at h ⊢
  simp only [charRound, hu, Option.bind_eq_bind, Option.bind_some, addInt_eq_some h]
  by_cases hwidth : Exceeds w (s.x + f.columns u)
  · rw [if_pos hwidth]
    exact .inl ⟨.inl hwidth, { s with x := s.x + f.columns u }, rfl, rfl⟩
  rw [if_neg hwidth]
  by_cases hroom : size < s.src + countUTF8Size (text s.src) ∨ dstSize ≤ s.dst + countUTF8Size (text s.src)
  · rw [if_pos hroom]
    exact .inl ⟨.inr hroom, { s with x := s.x + f.columns u }, rfl, rfl⟩
  rw [if_neg hroom]
  obtain ⟨hsize, hdst⟩ := not_or.mp hroom
  refine .inr ⟨hwidth, not_lt.mp hsize, not_le.mp hdst, ?_⟩
  rw [fill_eq_some (Int.natCast_nonneg _) (by dsimp only; omega)]
  exact ⟨_, rfl⟩

/-! ### The loop -/

/-- What is copied fits, and takes two columns for a byte at most. -/
theorem Copied.bounds {src dst : ℕ} {x : ℤ} (h : Copied f w text dstSize size tab src dst x) (hpos : 0 < dstSize) :
    dst < dstSize ∧ 0 ≤ x ∧ x ≤ 2 * dst := by
  induction h with
  | start => exact ⟨hpos, le_rfl, le_rfl⟩
  | @tab src dst x spaces _ _ htab hspaces hfits ih =>
    have hlt := Int.emod_lt_of_pos x htab
    omega
  | @char src dst bytes x _ _ _ _ hbytes _ _ hfits ih =>
    have hcolumns := columnsAt_bounds f text src
    omega

/-- The loop comes to what is copied. -/
theorem Copied.reached {src dst : ℕ} {x : ℤ} (h : Copied f w text bufSize size tab src dst x) (buf : ℕ → UInt8) :
    ∃ buf', ∀ r, Returns (copyRound f w text bufSize size tab) ⟨0, 0, 0, buf⟩ r ↔
      Returns (copyRound f w text bufSize size tab) ⟨src, dst, x, buf'⟩ r := by
  have hmax : intMax = 2147483647 := rfl
  have hsize : bufSize = 1024 := rfl
  induction h with
  | start => exact ⟨buf, fun r => Iff.rfl⟩
  | @tab src dst x spaces hcopied htext htab hspaces hfits ih =>
    obtain ⟨buf', hreach⟩ := ih
    obtain ⟨hdst, hx, hle⟩ := hcopied.bounds (by decide)
    subst hspaces
    have hround := tabRound_of_pos bufSize ⟨src, dst, x, buf'⟩ htab hx
    rcases hround with ⟨hfull, -⟩ | ⟨-, hgo⟩
    · exact absurd hfull (not_le.mpr hfits)
    · obtain ⟨buf'', hgo⟩ := hgo (by dsimp only; omega)
      exact ⟨buf'', fun r => (hreach r).trans (returns_of_goOn ((copyRound_tab htext).trans hgo))⟩
  | @char src dst bytes x hcopied h0 hnotab hbytes hpos hwidth hsrc hfits ih =>
    obtain ⟨buf', hreach⟩ := ih
    obtain ⟨hdst, hx, hle⟩ := hcopied.bounds (by decide)
    subst hbytes
    have hcolumns := columnsAt_bounds f text src
    have hround := charRound_cases f w text bufSize size ⟨src, dst, x, buf'⟩ (by dsimp only; omega)
    rcases hround with ⟨hend, -⟩ | ⟨-, -, -, buf'', hgo⟩
    · dsimp only at hend
      rcases hend with hend | hend | hend
      · exact absurd hend hwidth
      · omega
      · omega
    · exact ⟨buf'', fun r => (hreach r).trans (returns_of_goOn ((copyRound_char h0 hnotab).trans hgo))⟩

theorem Stray.ne_tab {src : ℕ} (h : Stray text size src) : text src ≠ 0x09 := by
  intro htab
  have hcount := h.2.1
  rw [htab] at hcount
  cases hcount

/-- The loop gets stuck at a byte that starts no character. -/
theorem Stray.stuck (h : Returns (copyRound f w text dstSize size tab) s r) (hstray : Stray text size s.src)
    (hdst : s.dst < dstSize) (hwidth : ¬ Reaches w s.x (columnsAt f text s.src)) : False := by
  induction h with
  | @done s r hd =>
    rw [copyRound_char hstray.1 hstray.ne_tab] at hd
    rcases lt_or_ge intMax (s.x + columnsAt f text s.src) with hmax | hmax
    · rw [charRound_overflow hmax] at hd
      cases hd
    · rcases charRound_cases f w text dstSize size s hmax with ⟨hend, -⟩ | ⟨-, -, -, buf, hgo⟩
      · rw [hstray.2.1] at hend
        rcases hend with hend | hend | hend
        · exact hwidth ⟨0, by simpa using hend, by simpa using hmax⟩
        · exact absurd hstray.2.2 (not_le.mpr hend)
        · exact absurd hdst (not_lt.mpr hend)
      · rw [hgo] at hd
        cases hd
  | @goOn s s' r hg _ ih =>
    rw [copyRound_char hstray.1 hstray.ne_tab] at hg
    rcases lt_or_ge intMax (s.x + columnsAt f text s.src) with hmax | hmax
    · rw [charRound_overflow hmax] at hg
      cases hg
    · rcases charRound_cases f w text dstSize size s hmax with ⟨-, s'', -, hd⟩ | ⟨-, -, -, buf, hgo⟩
      · rw [hd] at hg
        cases hg
      · rw [hgo, hstray.2.1] at hg
        cases hg
        refine ih hstray hdst ?_
        rintro ⟨n, hexceeds, hle⟩
        refine hwidth ⟨n + 1, ?_, ?_⟩
        · have hsum : s.x + ((n + 1 : ℕ) + 1) * columnsAt f text s.src =
              s.x + columnsAt f text s.src + (n + 1) * columnsAt f text s.src := by
            push_cast
            ring
          rw [hsum]
          exact hexceeds
        · push_cast
          dsimp only [Nat.add_zero] at hle
          linarith

/-- The loop gets past it when the width is reached. -/
theorem Stray.ends (hstray : Stray text size s.src) (hwidth : Reaches w s.x (columnsAt f text s.src))
    (hdst : s.dst < dstSize) : ∃ r, Returns (copyRound f w text dstSize size tab) s r ∧ r.dst = s.dst := by
  obtain ⟨n, hexceeds, hle⟩ := hwidth
  have hcolumns := columnsAt_bounds f text s.src
  induction n generalizing s with
  | zero =>
    have hmax : s.x + columnsAt f text s.src ≤ intMax := by simpa using hle
    have hover : Exceeds w (s.x + columnsAt f text s.src) := by simpa using hexceeds
    rcases charRound_cases f w text dstSize size s hmax with ⟨-, s', hs', hd⟩ | ⟨hnot, -⟩
    · exact ⟨s', .done ((copyRound_char hstray.1 hstray.ne_tab).trans hd), hs'⟩
    · exact absurd hover hnot
  | succ n ih =>
    have hmax : s.x + columnsAt f text s.src ≤ intMax := by
      push_cast at hle
      nlinarith
    rcases charRound_cases f w text dstSize size s hmax with
      ⟨-, s', hs', hd⟩ | ⟨-, -, -, buf, hgo⟩
    · exact ⟨s', .done ((copyRound_char hstray.1 hstray.ne_tab).trans hd), hs'⟩
    · rw [hstray.2.1] at hgo
      have hsum : s.x + ((n + 1 : ℕ) + 1) * columnsAt f text s.src =
          s.x + columnsAt f text s.src + (n + 1) * columnsAt f text s.src := by
        push_cast
        ring
      rw [hsum] at hexceeds hle
      obtain ⟨r, hr, hrdst⟩ := ih (s := ⟨s.src + 0, s.dst + 0, s.x + columnsAt f text s.src, buf⟩) hstray hdst hexceeds
        hle hcolumns
      exact ⟨r, .goOn ((copyRound_char hstray.1 hstray.ne_tab).trans hgo) hr, hrdst⟩

/-- From what is copied on, the loop ends in the buffer: by induction on the room that is left in it. -/
theorem Passable.ends (h : Passable f w text bufSize size tab) {src dst : ℕ} {x : ℤ}
    (hcopied : Copied f w text bufSize size tab src dst x) (buf : ℕ → UInt8) :
    ∃ r, Returns (copyRound f w text bufSize size tab) ⟨src, dst, x, buf⟩ r ∧ r.dst < bufSize := by
  have hmax : intMax = 2147483647 := rfl
  have hsize : bufSize = 1024 := rfl
  obtain ⟨k, hk⟩ : ∃ k, k = bufSize - dst := ⟨_, rfl⟩
  induction k using Nat.strong_induction_on generalizing src dst x buf with
  | h k ih =>
    obtain ⟨hdst, hx, hle⟩ := hcopied.bounds (by decide)
    obtain ⟨htab, hstray⟩ := h src dst x hcopied
    by_cases h0 : text src = 0
    · exact ⟨_, .done (copyRound_nul h0), hdst⟩
    by_cases hnotab : text src = 0x09
    · have hround := tabRound_of_pos bufSize ⟨src, dst, x, buf⟩ (htab hnotab) hx
      have hlt := Int.emod_lt_of_pos x (htab hnotab)
      rcases hround with ⟨-, hd⟩ | ⟨hfits, hgo⟩
      · exact ⟨_, .done ((copyRound_tab hnotab).trans hd), hdst⟩
      · dsimp only at hfits hgo
        obtain ⟨buf', hgo⟩ := hgo (by omega)
        obtain ⟨r, hr, hrdst⟩ := ih _ (by omega) (.tab hcopied hnotab (htab hnotab) rfl hfits) buf' rfl
        exact ⟨r, .goOn ((copyRound_tab hnotab).trans hgo) hr, hrdst⟩
    · have hcolumns := columnsAt_bounds f text src
      have hround := charRound_cases f w text bufSize size ⟨src, dst, x, buf⟩ (by dsimp only; omega)
      dsimp only at hround
      rcases hround with ⟨-, s', hs', hd⟩ | ⟨hwidth, hsrc, hfits, buf', hgo⟩
      · exact ⟨s', .done ((copyRound_char h0 hnotab).trans hd), hs' ▸ hdst⟩
      · rcases Nat.eq_zero_or_pos (countUTF8Size (text src)) with hcount | hcount
        · have hat : Stray text size src := ⟨h0, hcount, by omega⟩
          obtain ⟨r, hr, hrdst⟩ := Stray.ends (s := ⟨src, dst, x, buf⟩) hat (hstray hat) hdst
          exact ⟨r, hr, hrdst ▸ hdst⟩
        · obtain ⟨r, hr, hrdst⟩ := ih _ (by omega) (.char hcopied h0 hnotab rfl hcount hwidth hsrc hfits) buf' rfl
          exact ⟨r, .goOn ((copyRound_char h0 hnotab).trans hgo) hr, hrdst⟩

/-- The copy ends only when it is not stopped by a tab or stuck at a byte. -/
theorem passable_of_ends {buf : ℕ → UInt8} (h : ∃ r, CopyEnds f w text bufSize size tab buf r) :
    Passable f w text bufSize size tab := by
  obtain ⟨-, s, hreturns, -, -⟩ := h
  intro src dst x hcopied
  obtain ⟨buf', hreach⟩ := hcopied.reached buf
  obtain ⟨hdst, hx, -⟩ := hcopied.bounds (by decide)
  have hrest := (hreach s).mp hreturns
  constructor
  · intro htext
    by_contra hnonpos
    have hnone : copyRound f w text bufSize size tab ⟨src, dst, x, buf'⟩ = none :=
      (copyRound_tab htext).trans (tabRound_of_nonpos (not_lt.mp hnonpos) hx hdst)
    rcases hrest with hd | ⟨hg, -⟩
    · rw [hnone] at hd
      cases hd
    · rw [hnone] at hg
      cases hg
  · intro hstray
    by_contra hwidth
    exact Stray.stuck hrest hstray hdst hwidth

/-- **A copy ends**, with its terminator in the buffer, just when it can get past what it comes to. -/
theorem copyEnds_iff (f : Font) (w : Option ℤ) (text : ℕ → UInt8) (size : ℕ) (tab : ℤ) (buf : ℕ → UInt8) :
    (∃ r, CopyEnds f w text bufSize size tab buf r) ↔ Passable f w text bufSize size tab := by
  refine ⟨passable_of_ends, fun h => ?_⟩
  obtain ⟨s, hreturns, hdst⟩ := h.ends .start buf
  exact ⟨_, s, hreturns, hdst, rfl⟩

end DuvuvurKernel.Viewer
