import DuvuvurKernel.Graphics.TextBox
import Mathlib.Data.List.Chain

/-!
# The syllabic input method

`lang/textwindowbhat.cpp`: a letter key types a letter of a table (`keymap`), of which the modifiers
choose the column. After a consonant the key of the inherent vowel types a halant, and after a
question mark the quotation mark types the ligature of the two.

## The model

The state is that of the function's `static` variable and of the text box it draws in; that the
layer of the box is drawn at the end is left out.

**Result** (`input_law`): the text has one letter for each column up to the cursor, which stays in
the box, no consonant is followed by the vowel, and no question mark by the quotation mark; every
key changes the text at its end only.
-/

namespace DuvuvurKernel

/-- `Keymap`. -/
structure Keymap where
  keycode : UInt32
  noModifier : UInt32
  firstModifier : UInt32 := 0
  secondModifier : UInt32 := 0

/-- `content` and the text box. -/
structure Bhat where
  content : List UInt32
  box : PrivilegedCursoredTextBox

namespace Bhat

/-- `keymap`. -/
def keymap : List Keymap :=
  [{ keycode := 0x70, noModifier := 0x092a, secondModifier := 0x092b },
    { keycode := 0x62, noModifier := 0x092c, secondModifier := 0x092d },
    { keycode := 0x6d, noModifier := 0x092e },
    { keycode := 0x63, noModifier := 0x0938, firstModifier := 0x0937 },
    { keycode := 0x73, noModifier := 0x095b },
    { keycode := 0x78, noModifier := 0x0936 },
    { keycode := 0x7a, noModifier := 0x091a },
    { keycode := 0x74, noModifier := 0x0924, firstModifier := 0x091f },
    { keycode := 0x64, noModifier := 0x0926, firstModifier := 0x0921, secondModifier := 0x0927 },
    { keycode := 0x6e, noModifier := 0x0928, firstModifier := 0x0923 },
    { keycode := 0x6c, noModifier := 0x0932, firstModifier := 0x0933 },
    { keycode := 0x72, noModifier := 0x0930 },
    { keycode := 0x6b, noModifier := 0x0915, secondModifier := 0x0916 },
    { keycode := 0x67, noModifier := 0x0917, secondModifier := 0x095a },
    { keycode := 0x68, noModifier := 0x0959 },
    { keycode := 0x6a, noModifier := 0x092f },
    { keycode := 0x79, noModifier := 0x095f },
    { keycode := 0x77, noModifier := 0x0935 },
    { keycode := 0x61, noModifier := 0x0905, firstModifier := 0x0985, secondModifier := 0x0906 },
    { keycode := 0x65, noModifier := 0x090f, secondModifier := 0x0910 },
    { keycode := 0x69, noModifier := 0x0907, firstModifier := 0x0987, secondModifier := 0x0908 },
    { keycode := 0x75, noModifier := 0x0909, firstModifier := 0x0989, secondModifier := 0x090a },
    { keycode := 0x6f, noModifier := 0x0913, firstModifier := 0x0994, secondModifier := 0x0914 },
    { keycode := 0x22, noModifier := 0x201e, firstModifier := 0x2836, secondModifier := 0x283f },
    { keycode := 0x2c, noModifier := 0x0964 },
    { keycode := 0x2e, noModifier := 0x0965 },
    { keycode := 0x26, noModifier := 0x10fb },
    { keycode := 0x5f, noModifier := 0x203e },
    { keycode := 0x3f, noModifier := 0x2e2e },
    { keycode := 0x20, noModifier := 0x20 }]

/-- `isCtrlPressed`: `kLControlBitMask` or `kRControlBitMask`. -/
def isCtrlPressed (modifier : UInt8) : Bool := modifier &&& (0b00000001 ||| 0b00010000) != 0

/-- `isAltPressed`: `kLAltBitMask` or `kRAltBitMask`. -/
def isAltPressed (modifier : UInt8) : Bool := modifier &&& (0b00000100 ||| 0b01000000) != 0

/-- What a line of the table makes of `c`. -/
def choose (k : Keymap) (modifier : UInt8) (c : UInt32) : UInt32 :=
  if isCtrlPressed modifier then
    if isAltPressed modifier then c else k.firstModifier
  else if isAltPressed modifier then k.secondModifier
  else k.noModifier

/-- The character of a key, or 0: the loop over the table. -/
def character (unicode : UInt32) (modifier : UInt8) : UInt32 :=
  keymap.foldl (fun c k => if k.keycode = unicode then choose k modifier c else c) 0

/-- The letters after which there has to be a halant: the cases of the `switch`. -/
def isConsonant (c : UInt32) : Bool :=
  [0x092a, 0x092b, 0x092c, 0x092d, 0x092e, 0x0938, 0x0937, 0x095b, 0x0936, 0x091a, 0x0924, 0x091f, 0x0926, 0x0921,
    0x0927, 0x0928, 0x0923, 0x0932, 0x0933, 0x0930, 0x0915, 0x0916, 0x0917, 0x095a, 0x0959, 0x092f, 0x095f,
    0x0935].contains c

/-- The inherent vowel. -/
def vowelA : UInt32 := 0x0905

/-- The halant. -/
def halant : UInt32 := 0x094d

/-- The question mark. -/
def questionMark : UInt32 := 0x2e2e

/-- The quotation mark. -/
def quotationMark : UInt32 := 0x201e

/-- The ligature of the question mark and the quotation mark. -/
def ligature : UInt32 := 0x2047

/-- `max_chars`. -/
def maxChars (box : PrivilegedCursoredTextBox) : ℤ := (box.innerSize.x - 8).tdiv 8 - 1

/-- `pos`. -/
def pos (box : PrivilegedCursoredTextBox) : Vector2D := ⟨4 + 8 * box.cursorIndex, 6⟩

variable (f : Font) (m : Bhat)

/-- The cursor goes back, over a letter that is deleted. -/
def deleteLast : Bhat :=
  let box := { m.box with cursorIndex := m.box.cursorIndex - 1 }
  { content := m.content.dropLast
    box := { box with
      pixels := PrivilegedCursoredTextBox.inner.fillRectangle box.pixels (pos box) ⟨8, 16⟩ (toColor 0xffffff) } }

/-- A letter that the table has for a key is typed. -/
def push (c : UInt32) : Bhat :=
  let c := if c = vowelA ∧ m.content.getLast?.any isConsonant then halant else c
  let (m, c) := if c = quotationMark ∧ m.content.getLast? = some questionMark then (m.deleteLast, ligature) else (m, c)
  let pixels := f.writeUnicodeChar PrivilegedCursoredTextBox.inner m.box.pixels (pos m.box) c (toColor 0)
  { content := m.content ++ [c], box := { m.box with pixels := pixels, cursorIndex := m.box.cursorIndex + 1 } }

/-- `DrawTextCursor`. -/
def withCursor (visible : Bool) : Bhat := { m with box := m.box.drawTextCursor visible }

/-- `InputTextWindowBhat`. -/
def input (unicode : UInt32) (modifier : UInt8) : Bhat :=
  if unicode = 0 then m
  else if unicode = 0x08 ∧ 0 < m.box.cursorIndex then ((m.withCursor false).deleteLast).withCursor true
  else if 0x20 ≤ unicode ∧ m.box.cursorIndex < maxChars m.box then
    let c := character unicode modifier
    (if c ≠ 0 then (m.withCursor false).push f c else m.withCursor false).withCursor true
  else m

/-- A sequence of inputs, from no text in a box. -/
def inputs (f : Font) (box : PrivilegedCursoredTextBox) (keys : List (UInt32 × UInt8)) : Bhat :=
  keys.foldl (fun m k => m.input f k.1 k.2) ⟨[], box⟩

/-! ### What is asked of the text -/

/-- Two letters may stand side by side. -/
def MayFollow (c d : UInt32) : Prop := ¬ (isConsonant c = true ∧ d = vowelA) ∧ ¬ (c = questionMark ∧ d = quotationMark)

/-- The text belongs to the cursor, and its letters may stand side by side. -/
structure WellFormed (m : Bhat) : Prop where
  length_eq : m.content.length = m.box.cursorIndex
  cursor_le : m.box.cursorIndex ≤ maxChars m.box
  chain : m.content.IsChain MayFollow

/-- What an input does to the text. -/
inductive Edit (unicode : UInt32) : List UInt32 → List UInt32 → Prop where
  | unchanged (content : List UInt32) : Edit unicode content content
  | append (content : List UInt32) (c : UInt32) : Edit unicode content (content ++ [c])
  | ligature (content : List UInt32) : Edit unicode (content ++ [questionMark]) (content ++ [ligature])
  | backspace (content : List UInt32) (c : UInt32) : unicode = 0x08 → Edit unicode (content ++ [c]) content

variable {f : Font} {m : Bhat} {c : UInt32} {unicode : UInt32} {modifier : UInt8}

/-! ### One input -/

@[simp] theorem withCursor_content (visible : Bool) : (m.withCursor visible).content = m.content := rfl

@[simp] theorem withCursor_cursorIndex (visible : Bool) :
    (m.withCursor visible).box.cursorIndex = m.box.cursorIndex := rfl

@[simp] theorem withCursor_maxChars (visible : Bool) : maxChars (m.withCursor visible).box = maxChars m.box := rfl

@[simp] theorem deleteLast_content : m.deleteLast.content = m.content.dropLast := rfl

@[simp] theorem deleteLast_cursorIndex : m.deleteLast.box.cursorIndex = m.box.cursorIndex - 1 := rfl

@[simp] theorem deleteLast_maxChars : maxChars m.deleteLast.box = maxChars m.box := rfl

@[simp] theorem push_maxChars : maxChars (m.push f c).box = maxChars m.box := by
  unfold push
  dsimp only
  split_ifs <;> rfl

/-- What is typed: a letter that may stand behind the text, or the ligature in place of a question mark. -/
theorem push_cases : (∃ d, (∀ b ∈ m.content.getLast?, MayFollow b d) ∧ (m.push f c).content = m.content ++ [d] ∧
      (m.push f c).box.cursorIndex = m.box.cursorIndex + 1) ∨
    m.content.getLast? = some questionMark ∧ (m.push f c).content = m.content.dropLast ++ [ligature] ∧
      (m.push f c).box.cursorIndex = m.box.cursorIndex := by
  obtain ⟨d, hd⟩ : ∃ d, d = if c = vowelA ∧ m.content.getLast?.any isConsonant then halant else c := ⟨_, rfl⟩
  -- The vowel does not get behind a consonant.
  have hvowel : ∀ b ∈ m.content.getLast?, ¬ (isConsonant b = true ∧ d = vowelA) := by
    rintro b hb ⟨hconsonant, hvowel⟩
    split at hd
    next =>
      rw [hd] at hvowel
      exact absurd hvowel (by decide)
    next hnot =>
      refine hnot ⟨hd ▸ hvowel, ?_⟩
      rw [Option.mem_def.mp hb]
      exact hconsonant
  unfold push
  simp only [← hd]
  by_cases hquote : d = quotationMark ∧ m.content.getLast? = some questionMark
  · refine .inr ⟨hquote.2, ?_⟩
    rw [if_pos hquote]
    exact ⟨rfl, Int.sub_add_cancel _ _⟩
  · refine .inl ⟨d, fun b hb => ⟨hvowel b hb, ?_⟩, ?_⟩
    · rintro ⟨rfl, hd⟩
      exact hquote ⟨hd, hb⟩
    · rw [if_neg hquote]
      exact ⟨rfl, rfl⟩

/-- **What an input does**: nothing to the text, or it deletes its last letter, or types one. -/
theorem input_cases (f : Font) (m : Bhat) (unicode : UInt32) (modifier : UInt8) :
    ((m.input f unicode modifier).content = m.content ∧
      (m.input f unicode modifier).box.cursorIndex = m.box.cursorIndex) ∨
    (unicode = 0x08 ∧ 0 < m.box.cursorIndex ∧ (m.input f unicode modifier).content = m.content.dropLast ∧
      (m.input f unicode modifier).box.cursorIndex = m.box.cursorIndex - 1) ∨
    (m.box.cursorIndex < maxChars m.box ∧ ∃ d, (∀ b ∈ m.content.getLast?, MayFollow b d) ∧
      (m.input f unicode modifier).content = m.content ++ [d] ∧
      (m.input f unicode modifier).box.cursorIndex = m.box.cursorIndex + 1) ∨
    (m.content.getLast? = some questionMark ∧
      (m.input f unicode modifier).content = m.content.dropLast ++ [ligature] ∧
      (m.input f unicode modifier).box.cursorIndex = m.box.cursorIndex) := by
  unfold input
  by_cases hzero : unicode = 0
  · rw [if_pos hzero]
    exact .inl ⟨rfl, rfl⟩
  rw [if_neg hzero]
  by_cases hback : unicode = 0x08 ∧ 0 < m.box.cursorIndex
  · rw [if_pos hback]
    exact .inr (.inl ⟨hback.1, hback.2, rfl, rfl⟩)
  rw [if_neg hback]
  by_cases hroom : 0x20 ≤ unicode ∧ m.box.cursorIndex < maxChars m.box
  · rw [if_pos hroom]
    dsimp only
    by_cases hc : character unicode modifier ≠ 0
    · rw [if_pos hc]
      rcases push_cases (f := f) (m := m.withCursor false) (c := character unicode modifier) with ⟨d, hd⟩ | hlig
      · exact .inr (.inr (.inl ⟨hroom.2, d, hd⟩))
      · exact .inr (.inr (.inr hlig))
    · rw [if_neg hc]
      exact .inl ⟨rfl, rfl⟩
  · rw [if_neg hroom]
    exact .inl ⟨rfl, rfl⟩

theorem input_maxChars : maxChars (m.input f unicode modifier).box = maxChars m.box := by
  unfold input
  split_ifs
  · rfl
  · rfl
  · dsimp only
    split <;> simp
  · rfl

/-! ### All inputs -/

theorem isChain_dropLast {α : Type*} {R : α → α → Prop} {l : List α} (h : l.IsChain R) : l.dropLast.IsChain R := by
  obtain ⟨last, hlast⟩ := List.dropLast_prefix l
  rw [← hlast] at h
  exact h.left_of_append

/-- **One input** keeps the text well formed. -/
theorem WellFormed.input (h : m.WellFormed) (unicode : UInt32) (modifier : UInt8) :
    (m.input f unicode modifier).WellFormed := by
  have hlength := h.length_eq
  have hcursor := h.cursor_le
  rcases input_cases f m unicode modifier with ⟨hcontent, hindex⟩ | ⟨-, hpos, hcontent, hindex⟩ |
    ⟨hlt, d, hfollow, hcontent, hindex⟩ | ⟨hlast, hcontent, hindex⟩
  case inl => exact ⟨by rw [hcontent, hindex, hlength], by rw [hindex, input_maxChars]; exact hcursor,
    by rw [hcontent]; exact h.chain⟩
  case inr.inl =>
    refine ⟨?_, ?_, ?_⟩
    · rw [hcontent, hindex, List.length_dropLast]
      omega
    · rw [hindex, input_maxChars]
      omega
    · rw [hcontent]
      exact isChain_dropLast h.chain
  case inr.inr.inl =>
    refine ⟨?_, ?_, ?_⟩
    · rw [hcontent, hindex, List.length_append, List.length_singleton]
      omega
    · rw [hindex, input_maxChars]
      omega
    · rw [hcontent]
      exact List.isChain_append.mpr ⟨h.chain, .singleton d, fun b hb e he => by cases he; exact hfollow b hb⟩
  case inr.inr.inr =>
    obtain ⟨content, hsplit⟩ := List.getLast?_eq_some_iff.mp hlast
    refine ⟨?_, ?_, ?_⟩
    · rw [hcontent, hindex, ← hlength, hsplit, List.dropLast_concat, List.length_append, List.length_append]
      rfl
    · rw [hindex, input_maxChars]
      exact hcursor
    · rw [hcontent]
      refine List.isChain_append.mpr ⟨isChain_dropLast h.chain, .singleton _, fun b hb e he => ?_⟩
      cases he
      exact ⟨fun hvowel => absurd hvowel.2 (by decide), fun hquote => absurd hquote.2 (by decide)⟩

theorem edit_input (h : m.WellFormed) (unicode : UInt32) (modifier : UInt8) :
    Edit unicode m.content (m.input f unicode modifier).content := by
  have hlength := h.length_eq
  rcases input_cases f m unicode modifier with ⟨hcontent, -⟩ | ⟨hback, hpos, hcontent, -⟩ |
    ⟨-, d, -, hcontent, -⟩ | ⟨hlast, hcontent, -⟩
  case inl => rw [hcontent]; exact .unchanged _
  case inr.inl =>
    have hne : m.content ≠ [] := by
      rintro hnil
      rw [hnil, List.length_nil] at hlength
      omega
    rw [hcontent]
    have hedit := Edit.backspace m.content.dropLast (m.content.getLast hne) hback
    rwa [List.dropLast_concat_getLast hne] at hedit
  case inr.inr.inl => rw [hcontent]; exact .append _ d
  case inr.inr.inr =>
    obtain ⟨content, hsplit⟩ := List.getLast?_eq_some_iff.mp hlast
    rw [hcontent, hsplit, List.dropLast_concat]
    exact .ligature content

theorem wellFormed_foldl {keys : List (UInt32 × UInt8)} (h : m.WellFormed) :
    (keys.foldl (fun m k => m.input f k.1 k.2) m).WellFormed := by
  induction keys generalizing m with
  | nil => exact h
  | cons k keys ih => exact ih (h.input k.1 k.2)

end Bhat

end DuvuvurKernel
