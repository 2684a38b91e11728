import DuvuvurKernel.Error
import DuvuvurKernel.Lib.Loops
import DuvuvurKernel.Graphics.PixelWriter
import Mathlib.Data.Nat.Notation
import Mathlib.Tactic

/-!
# Characters and their glyphs

`lang/font.cpp`: UTF-8 as the kernel decodes it, the glyph tables, and how a
character and a string are drawn.

## The model

A string is what can be read from its start (`Bytes`); reading outside it is
undefined. The glyph tables and FreeType are not part of the source: a `Font` holds
the tables the build links in and what FreeType makes of a character.
-/

namespace DuvuvurKernel

open Lib.Loops

/-- What can be read at each offset from a pointer to characters. -/
abbrev Bytes := ℕ → Option UInt8

/-- The bytes of a buffer. -/
def bytesOf (buf : List UInt8) : Bytes := fun i => buf[i]?

/-- `s + i`. -/
def Bytes.from (s : Bytes) (i : ℕ) : Bytes := fun k => s (i + k)

/-! ### UTF-8 -/

/-- `CountUTF8Size`. -/
def countUTF8Size (c : UInt8) : ℕ :=
  if c < 0x80 then 1
  else if 0xc0 ≤ c ∧ c < 0xe0 then 2
  else if 0xe0 ≤ c ∧ c < 0xf0 then 3
  else if 0xf0 ≤ c ∧ c < 0xf8 then 4
  else 0

/-- `ConvertUTF8To32`: the character and the number of its bytes. -/
def convertUTF8To32 (u8 : Bytes) : Option (UInt32 × ℕ) := do
  let c0 ← u8 0
  match countUTF8Size c0 with
  | 1 => return (c0.toUInt32, 1)
  | 2 =>
    let c1 ← u8 1
    return ((c0.toUInt32 &&& 0b00011111) <<< 6 ||| (c1.toUInt32 &&& 0b00111111), 2)
  | 3 =>
    let c1 ← u8 1
    let c2 ← u8 2
    return ((c0.toUInt32 &&& 0b00001111) <<< 12 ||| (c1.toUInt32 &&& 0b00111111) <<< 6
      ||| (c2.toUInt32 &&& 0b00111111), 3)
  | 4 =>
    let c1 ← u8 1
    let c2 ← u8 2
    let c3 ← u8 3
    return ((c0.toUInt32 &&& 0b00000111) <<< 18 ||| (c1.toUInt32 &&& 0b00111111) <<< 12
      ||| (c2.toUInt32 &&& 0b00111111) <<< 6 ||| (c3.toUInt32 &&& 0b00111111), 4)
  | _ => return (0, 0)

theorem countUTF8Size_le (c : UInt8) : countUTF8Size c ≤ 4 := by
  unfold countUTF8Size
  split_ifs <;> decide

/-- A character whose bytes can all be read is decoded. -/
theorem convertUTF8To32_eq_some {s : Bytes} {c : UInt8} (hc : s 0 = some c)
    (hr : ∀ k < countUTF8Size c, (s k).isSome) : ∃ u, convertUTF8To32 s = some (u, countUTF8Size c) := by
  have hget : ∀ k < countUTF8Size c, ∃ b, s k = some b := fun k hk => Option.isSome_iff_exists.mp (hr k hk)
  have hle := countUTF8Size_le c
  simp only [convertUTF8To32, hc, Option.bind_eq_bind, Option.bind_some]
  generalize countUTF8Size c = n at hget hle ⊢
  match n with
  | 0 | 1 => exact ⟨_, rfl⟩
  | 2 =>
    obtain ⟨b, hb⟩ := hget 1 (by decide)
    simp [hb]
  | 3 =>
    obtain ⟨b, hb⟩ := hget 1 (by decide)
    obtain ⟨b', hb'⟩ := hget 2 (by decide)
    simp [hb, hb']
  | 4 =>
    obtain ⟨b, hb⟩ := hget 1 (by decide)
    obtain ⟨b', hb'⟩ := hget 2 (by decide)
    obtain ⟨b'', hb''⟩ := hget 3 (by decide)
    simp [hb, hb', hb'']
  | n + 5 => omega

/-- The number of bytes a character is decoded from is the one its first byte announces. -/
theorem convertUTF8To32_size {s : Bytes} {c : UInt8} {u : UInt32} {k : ℕ} (hc : s 0 = some c)
    (h : convertUTF8To32 s = some (u, k)) : k = countUTF8Size c := by
  have hle := countUTF8Size_le c
  simp only [convertUTF8To32, hc, Option.bind_eq_bind, Option.bind_some] at h
  generalize countUTF8Size c = n at h hle ⊢
  match n with
  | 0 | 1 | 2 | 3 | 4 =>
    simp only [Option.pure_def, Option.bind_eq_some_iff, Option.some.injEq, Prod.mk.injEq] at h
    grind
  | n + 5 => omega

/-- A round of a loop over the characters of a string, up to a zero byte or to the first offset
that is not within `limit`: at offset `i` it goes past one character and draws it. -/
def stringLoop {τ : Type} (limit : ℕ → Bool) (draw : τ → UInt32 → τ) (str : Bytes) :
    ℕ × τ → Option (Next (ℕ × τ) (ℕ × τ))
  | (i, t) => do
    let c ← str i
    if c = 0 ∨ limit i = false then return .done (i, t)
    let (u32, bytes) ← convertUTF8To32 (str.from i)
    return .goOn (i + bytes, draw t u32)

/-! ### Glyphs -/

/-- `HalfwidthGlyph` and `FullwidthGlyph`: 16 rows of `w` pixels. -/
structure Glyph (w : ℕ) where
  codePoint : UInt32
  glyph : Fin 16 → BitVec w

/-- A glyph table, sorted by code point, and what follows it in memory. -/
structure GlyphTable (w : ℕ) where
  /-- The table. -/
  entries : List (Glyph w)
  /-- What is read as a glyph at its end. -/
  atEnd : Glyph w

/-- `std::lower_bound` over a table: the first glyph that is not below `c`. -/
def GlyphTable.lowerBound {w : ℕ} (t : GlyphTable w) (c : UInt32) : Glyph w :=
  (t.entries.find? fun g => !decide (g.codePoint < c)).getD t.atEnd

/-- `GetGlyphFromHankakuBin` and `GetGlyphFromZenkakuBin`. -/
def GlyphTable.get {w : ℕ} (t : GlyphTable w) (c : UInt32) : Option (Fin 16 → BitVec w) :=
  let candidate := t.lowerBound c
  if candidate.codePoint = c then some candidate.glyph else none

/-- `FT_GlyphSlot`, after `FT_Load_Glyph` has rendered a glyph. -/
structure RenderedGlyph where
  /-- `bitmap.rows`. -/
  rows : ℕ
  /-- `bitmap.width`. -/
  width : ℕ
  /-- Whether the bit of a pixel of `bitmap.buffer`, found by row and column, is set. -/
  bit : ℕ → ℕ → Bool
  /-- `bitmap_left`. -/
  bitmapLeft : ℤ
  /-- `bitmap_top`. -/
  bitmapTop : ℤ
  /-- `advance.x`. -/
  advanceX : ℤ

/-- `FT_Face`, with the size set. -/
structure Face where
  height : ℤ
  descender : ℤ
  /-- `size->metrics.y_ppem`. -/
  yPpem : ℤ
  /-- `units_per_EM`. -/
  unitsPerEM : ℤ
  /-- `RenderUnicode`: the glyph of a character, if there is one. -/
  renderUnicode : UInt32 → Option RenderedGlyph

/-- `baseline`. -/
def Face.baseline (face : Face) : ℤ :=
  ((face.height + face.descender) * face.yPpem).tdiv face.unitsPerEM

/-- What the kernel draws characters with. -/
structure Font where
  /-- `hankaku.bin`. -/
  hankaku : GlyphTable 8
  /-- `zenkaku.bin`. -/
  zenkaku : GlyphTable 16
  /-- `NewFTFace`: the Japanese font at 16 pixels, if FreeType opens it. -/
  newFTFace : Option Face

namespace Font

/-- A font without glyphs. -/
def empty : Font where
  hankaku := ⟨[], ⟨0xffffffff, fun _ => 0⟩⟩
  zenkaku := ⟨[], ⟨0xffffffff, fun _ => 0⟩⟩
  newFTFace := none

/-- `IsHankaku`. -/
def isHankaku (f : Font) (c : UInt32) : Bool :=
  if (f.hankaku.get c).isSome then true
  else if (f.zenkaku.get c).isSome then false
  else decide (c ≤ 0x7f)

/-- `IsGlyphImplemented`. -/
def isGlyphImplemented (f : Font) (c : UInt32) : Bool := (f.hankaku.get c).isSome || (f.zenkaku.get c).isSome

/-- The positions of the set pixels of a glyph, row by row. -/
def glyphPixels {w : ℕ} (glyph : Fin 16 → BitVec w) (pos : Vector2D) : List Vector2D :=
  (List.finRange 16).flatMap fun dy =>
    ((List.range w).filter fun dx => (glyph dy <<< dx).msb).map fun dx => pos + ⟨dx, dy.val⟩

/-- The glyph `WriteGlitched` draws. -/
def glitched : Fin 16 → BitVec 8 := fun dy => if dy.val % 2 = 0 then 0b00110011 else 0b11001100

/-- The positions `WriteGlitched` draws in place of a character. -/
def glitchedPixels (pos : Vector2D) (c : UInt32) : List Vector2D :=
  glyphPixels glitched pos ++ if c > 0x7f then glyphPixels glitched (pos + ⟨8, 0⟩) else []

/-- The positions of the background of a rendered glyph, row by row. -/
def backgroundPixels (face : Face) (g : RenderedGlyph) (pos : Vector2D) (c : UInt32) : List Vector2D :=
  let backgroundWidth := if c ≤ 0x7f then 8 else 16
  (List.range 16).flatMap fun dy : ℕ =>
    let dyRelative : ℤ := dy - (face.baseline - g.bitmapTop)
    ((List.range backgroundWidth).filter fun dx : ℕ =>
      let dxRelative : ℤ := dx - g.bitmapLeft
      if 0 ≤ dyRelative ∧ dyRelative < g.rows ∧ 0 ≤ dxRelative ∧ dxRelative < g.width then
        !g.bit dyRelative.toNat dxRelative.toNat
      else true).map fun dx => pos + ⟨dx, dy⟩

/-- The positions `WriteUnicodeChar` draws, and what it returns. -/
def charPixels (f : Font) (pos : Vector2D) (c : UInt32) : List Vector2D × Except Error Unit :=
  match f.hankaku.get c with
  | some glyph => (glyphPixels glyph pos, .ok ())
  | none =>
    match f.zenkaku.get c with
    | some glyph => (glyphPixels glyph pos, .ok ())
    | none =>
      match f.newFTFace with
      | none => (glitchedPixels pos c, .error .freeTypeError)
      | some face =>
        match face.renderUnicode c with
        | none => (glitchedPixels pos c, .error .freeTypeError)
        | some g => (backgroundPixels face g pos c, .ok ())

/-- The columns a character takes. -/
def columns (f : Font) (c : UInt32) : ℤ := if f.isHankaku c then 1 else 2

variable {σ : Type} (w : PixelWriter σ)

/-- `WriteUnicodeChar`, for its drawing; no caller reads what it returns. -/
def writeUnicodeChar (f : Font) (s : σ) (pos : Vector2D) (c : UInt32) (color : PixelColor) : σ :=
  w.writeAll s (f.charPixels pos c).1 color

/-- What `WriteUTF8String` does with a character, `x` columns to the right of `pos`. -/
def drawUTF8 (f : Font) (pos : Vector2D) (color : PixelColor) : ℤ × σ → UInt32 → ℤ × σ
  | (x, s), u32 => (x + (if f.isHankaku u32 then 1 else 2),
      f.writeUnicodeChar w s (pos + ⟨8 * x, 0⟩) u32 color)

/-- `WriteUTF8String` returns: the offset it stops at, the columns it has drawn over, and what it
has drawn on. -/
def WriteUTF8String (f : Font) (s : σ) (pos : Vector2D) (str : Bytes) (color : PixelColor) :
    ℕ × ℤ × σ → Prop :=
  Returns (stringLoop (fun _ => true) (f.drawUTF8 w pos color) str) (0, 0, s)

/-! ### Where a character is drawn -/

variable {f : Font} {pos q : Vector2D} {c : UInt32}

theorem columns_pos (f : Font) (c : UInt32) : 1 ≤ f.columns c := by
  unfold columns
  split <;> decide

theorem glyphPixels_inside {w : ℕ} {glyph : Fin 16 → BitVec w} (h : q ∈ glyphPixels glyph pos) :
    pos.x ≤ q.x ∧ q.x < pos.x + w ∧ pos.y ≤ q.y ∧ q.y < pos.y + 16 := by
  obtain ⟨dy, -, hq⟩ := List.mem_flatMap.mp h
  obtain ⟨dx, hdx, rfl⟩ := List.mem_map.mp hq
  have hdx' := List.mem_range.mp (List.mem_of_mem_filter hdx)
  have hdy := dy.isLt
  simp only [Vector2D.add_x, Vector2D.add_y]
  omega

theorem glitchedPixels_inside (h : q ∈ glitchedPixels pos c) :
    pos.x ≤ q.x ∧ q.x < pos.x + (if c ≤ 0x7f then 8 else 16) ∧ pos.y ≤ q.y ∧ q.y < pos.y + 16 := by
  unfold glitchedPixels at h
  rcases List.mem_append.mp h with h | h
  · have hq := glyphPixels_inside h
    split <;> omega
  · split at h
    next hc =>
      have hq := glyphPixels_inside h
      simp only [Vector2D.add_x, Vector2D.add_y] at hq
      rw [if_neg (UInt32.not_le.mpr hc)]
      omega
    next => cases h

theorem backgroundPixels_inside {face : Face} {g : RenderedGlyph} (h : q ∈ backgroundPixels face g pos c) :
    pos.x ≤ q.x ∧ q.x < pos.x + (if c ≤ 0x7f then 8 else 16) ∧ pos.y ≤ q.y ∧ q.y < pos.y + 16 := by
  obtain ⟨dy, hdy, hq⟩ := List.mem_flatMap.mp h
  obtain ⟨dx, hdx, rfl⟩ := List.mem_map.mp hq
  have hdx' := List.mem_range.mp (List.mem_of_mem_filter hdx)
  have hdy' := List.mem_range.mp hdy
  simp only [Vector2D.add_x, Vector2D.add_y]
  by_cases hc : c ≤ 0x7f
  · rw [if_pos hc] at hdx' ⊢
    omega
  · rw [if_neg hc] at hdx' ⊢
    omega

/-- **A character is drawn in its columns**, 16 pixels high. -/
theorem charPixels_inside (h : q ∈ (f.charPixels pos c).1) :
    pos.x ≤ q.x ∧ q.x < pos.x + 8 * f.columns c ∧ pos.y ≤ q.y ∧ q.y < pos.y + 16 := by
  unfold charPixels at h
  unfold columns isHankaku
  cases hh : f.hankaku.get c with
  | some glyph =>
    simp only [hh] at h ⊢
    have hq := glyphPixels_inside h
    simpa using hq
  | none =>
    cases hz : f.zenkaku.get c with
    | some glyph =>
      simp only [hh, hz] at h ⊢
      have hq := glyphPixels_inside h
      simpa using hq
    | none =>
      have hq : pos.x ≤ q.x ∧ q.x < pos.x + (if c ≤ 0x7f then 8 else 16) ∧ pos.y ≤ q.y ∧ q.y < pos.y + 16 := by
        simp only [hh, hz] at h
        split at h
        · exact glitchedPixels_inside h
        · split at h
          · exact glitchedPixels_inside h
          · exact backgroundPixels_inside h
      simp only [Option.isSome_none, Bool.false_eq_true, if_false, decide_eq_true_eq]
      split at hq
      next hc =>
        rw [if_pos hc]
        exact hq
      next hc =>
        rw [if_neg hc]
        exact hq

end Font

end DuvuvurKernel
