import DuvuvurKernel.Lang.Font
import DuvuvurKernel.Lib.Bytes
import Mathlib.Data.List.TakeWhile

/-!
# From the source of a font to its glyphs

`compile` of `tools/makefont.py`, which turns a text of code points and pictures into the glyph
tables that the build links into the kernel, and these tables as `lang/font.cpp` reads them.

## The model

A text is the list of its characters, and what Python raises is a `FontError`. Of Unicode, `int`
needs the digits that are not those of ASCII (`decimal`); they do not matter here. An array of
glyphs is read from bytes with as many entries as there is room for (`readGlyphs`).

What the source says is taken from its lines without looking at what `compile` checks
(`sourceGlyphs`): a code point, and the rows of a picture.

**Result** (`pipeline_iff`): each glyph of an accepted source is in the table just when the last one
has 16 rows, with nothing marked below them. The rows of a glyph are counted when the next one
begins, and no one counts those of the last (`last_glyph_lost`).
-/

namespace DuvuvurKernel.Makefont

open Lib.Bytes

/-- What `compile` raises. -/
inductive FontError where
  /-- The row of a glyph has another width. -/
  | rowWidth (rowCount codepoint expectedWidth actualWidth : ℕ)
  /-- A glyph has another number of rows. -/
  | glyphHeight (codepoint expectedHeight actualHeight : ℕ)
  /-- `TypeError`: a row comes before the first glyph. -/
  | noGlyph
  /-- `ValueError`: a line is no number. -/
  | badNumber
  /-- `OverflowError`: a number has too many bytes. -/
  | overflow
  deriving DecidableEq

/-! ### Strings -/

/-- White space, as `str.lstrip` and `int` take it. -/
def isSpace (c : Char) : Bool :=
  let n := c.toNat
  (9 ≤ n && n ≤ 13) || (28 ≤ n && n ≤ 32) || n == 0x85 || n == 0xa0 || n == 0x1680 || (0x2000 ≤ n && n ≤ 0x200a) ||
    n == 0x2028 || n == 0x2029 || n == 0x202f || n == 0x205f || n == 0x3000

/-- Where `str.splitlines` ends a line. -/
def isLineBreak (c : Char) : Bool :=
  let n := c.toNat
  (10 ≤ n && n ≤ 13) || (28 ≤ n && n ≤ 30) || n == 0x85 || n == 0x2028 || n == 0x2029

/-- A character in front of the first of some lines. -/
def onFirst (c : Char) : List (List Char) → List (List Char)
  | [] => [[c]]
  | l :: ls => (c :: l) :: ls

/-- `str.splitlines`, behind a carriage return or not: a line feed there belongs to it. -/
def splitLinesFrom : Bool → List Char → List (List Char)
  | _, [] => []
  | cr, c :: cs =>
    if cr && c == '\n' then splitLinesFrom false cs
    else if isLineBreak c then [] :: splitLinesFrom (c == '\r') cs
    else onFirst c (splitLinesFrom false cs)

/-- `str.splitlines`. -/
def splitLines (src : List Char) : List (List Char) := splitLinesFrom false src

/-- The value of a digit to base 16. -/
def hexDigit (decimal : Char → Option ℕ) (c : Char) : Option ℕ :=
  if '0' ≤ c ∧ c ≤ '9' then some (c.toNat - '0'.toNat)
  else if 'a' ≤ c ∧ c ≤ 'f' then some (c.toNat - 'a'.toNat + 10)
  else if 'A' ≤ c ∧ c ≤ 'F' then some (c.toNat - 'A'.toNat + 10)
  else decimal c

/-- The digits of a number, with single underscores between them. -/
def hexDigits (decimal : Char → Option ℕ) : ℕ → Bool → List Char → Option ℕ
  | value, afterUnderscore, [] => if afterUnderscore then none else some value
  | value, afterUnderscore, c :: cs =>
    if c = '_' then if afterUnderscore then none else hexDigits decimal value true cs
    else (hexDigit decimal c).bind fun d => hexDigits decimal (16 * value + d) false cs

/-- `int(line, 0)`, of a line that begins with `0x` and a digit. -/
def int0 (decimal : Char → Option ℕ) (line : List Char) : Option ℕ :=
  hexDigits decimal 0 false ((line.reverse.dropWhile isSpace).reverse.drop 2)

/-- `[.*@]`. -/
def isBitmapChar (c : Char) : Bool := c == '.' || c == '*' || c == '@'

/-- What `BITMAP_PATTERN` matches at the beginning of a line. -/
def bitmapMatch (line : List Char) : List Char := line.takeWhile isBitmapChar

/-- `HEX_PATTERN` matches at the beginning of a line. -/
def hexMatch (line : List Char) : Bool :=
  line.take 2 == ['0', 'x'] && (line.drop 2).head?.any fun c => ('0' ≤ c && c ≤ '9') || ('a' ≤ c && c ≤ 'f')

/-! ### `compile` -/

/-- The variables of `compile`. -/
structure State where
  result : List (List UInt8)
  currentCodepoint : Option ℕ
  rowCount : Option ℕ

/-- The variables before the first line. -/
def State.initial : State := ⟨[], none, none⟩

/-- `int.to_bytes`. -/
def toBytes (n length : ℕ) : Except FontError (List UInt8) :=
  if n < 256 ^ length then .ok (toLittle length n) else .error .overflow

/-- `bits_int`. -/
def bitsInt (row : List Char) : ℕ := ofBits (row.map fun x => x != '.')

/-- `byte_width`. -/
def byteWidth (width : ℕ) : ℕ := (width + 7) / 8

/-- A line that is a row. -/
def addRow (width : ℕ) (s : State) (row : List Char) : Except FontError State :=
  match s.rowCount with
  | none => .error .noGlyph
  | some rowCount =>
    if row.length ≠ width then
      .error (.rowWidth (rowCount + 1) (s.currentCodepoint.getD 0) width row.length)
    else do
      let bytes ← toBytes (bitsInt row) (byteWidth width)
      return { s with rowCount := some (rowCount + 1), result := s.result ++ [bytes] }

/-- A line with which a glyph begins. -/
def addGlyph (decimal : Char → Option ℕ) (height : ℕ) (s : State) (line : List Char) : Except FontError State :=
  if s.rowCount ≠ none ∧ s.rowCount ≠ some height then
    .error (.glyphHeight (s.currentCodepoint.getD 0) height (s.rowCount.getD 0))
  else
    match int0 decimal line with
    | none => .error .badNumber
    | some codepoint => do
      let bytes ← toBytes codepoint 4
      return ⟨s.result ++ [bytes], some codepoint, some 0⟩

/-- A round of the loop. -/
def addLine (decimal : Char → Option ℕ) (width height : ℕ) (s : State) (line : List Char) : Except FontError State :=
  if bitmapMatch line ≠ [] then addRow width s (bitmapMatch line)
  else if hexMatch line then addGlyph decimal height s line
  else .ok s

/-- `compile`. -/
def compile (decimal : Char → Option ℕ) (src : List Char) (width height : ℕ) : Except FontError (List UInt8) := do
  let s ← (splitLines (src.dropWhile isSpace)).foldlM (addLine decimal width height) .initial
  return s.result.flatten

/-! ### What the source says -/

/-- A glyph of the source. -/
structure SourceGlyph where
  codePoint : ℕ
  /-- The rows of its picture. -/
  picture : List (List Char)

/-- A pixel of the picture is marked. -/
def SourceGlyph.Marked (g : SourceGlyph) (x y : ℕ) : Prop :=
  ∃ row, g.picture[y]? = some row ∧ (row[x]? = some '*' ∨ row[x]? = some '@')

/-- The rows of some lines that belong to a glyph before them, and the glyphs that begin in them. -/
def parse (decimal : Char → Option ℕ) : List (List Char) → List (List Char) × List SourceGlyph
  | [] => ([], [])
  | line :: lines =>
    let rest := parse decimal lines
    if bitmapMatch line ≠ [] then (bitmapMatch line :: rest.1, rest.2)
    else if hexMatch line then ([], ⟨(int0 decimal line).getD 0, rest.1⟩ :: rest.2)
    else rest

/-- The glyphs of a source. -/
def sourceGlyphs (decimal : Char → Option ℕ) (src : List Char) : List SourceGlyph :=
  (parse decimal (splitLines (src.dropWhile isSpace))).2

/-! ### The tables -/

/-- `sizeof(HalfwidthGlyph)` and `sizeof(FullwidthGlyph)`. -/
def glyphSize (w : ℕ) : ℕ := 4 + 16 * byteWidth w

/-- The glyph at the beginning of some bytes: the code point, and 16 rows. -/
def readGlyph (w : ℕ) (bytes : List UInt8) : Glyph w where
  codePoint := .ofNat (ofLittle (bytes.take 4))
  glyph dy := .ofNat w (ofLittle ((bytes.drop (4 + dy * byteWidth w)).take (byteWidth w)))

/-- The bytes, as an array of glyphs. -/
def readGlyphs (w : ℕ) (bytes : List UInt8) : List (Glyph w) :=
  (List.range (bytes.length / glyphSize w)).map fun k => readGlyph w (bytes.drop (k * glyphSize w))

/-- The glyph has the code point, and `WriteUnicodeChar` sets the pixels that are marked. -/
def SourceGlyph.DrawnBy {w : ℕ} (g : SourceGlyph) (entry : Glyph w) : Prop :=
  entry.codePoint.toNat = g.codePoint ∧
    ∀ x y : ℕ, (⟨x, y⟩ : Vector2D) ∈ Font.glyphPixels entry.glyph ⟨0, 0⟩ ↔ g.Marked x y

/-- The last glyph has 16 rows, and what comes after them is not marked. -/
def LastComplete (gs : List SourceGlyph) : Prop :=
  ∀ g ∈ gs.getLast?, 16 ≤ g.picture.length ∧ ∀ x y, 16 ≤ y → ¬ g.Marked x y

/-! ### The bytes of a source -/

/-- The bytes of a row. -/
def rowBytes (width : ℕ) (row : List Char) : List UInt8 := toLittle (byteWidth width) (bitsInt row)

/-- The bytes of a glyph. -/
def glyphBytes (width : ℕ) (g : SourceGlyph) : List UInt8 :=
  toLittle 4 g.codePoint ++ g.picture.flatMap (rowBytes width)

/-- A row that is accepted. -/
def IsRow (width : ℕ) (row : List Char) : Prop := row.length = width ∧ ∀ c ∈ row, isBitmapChar c = true

/-- What it means that the lines with these rows and glyphs have been accepted between two states. -/
structure Accepted (width height : ℕ) (s s' : State) (rows : List (List Char)) (gs : List SourceGlyph) : Prop where
  bytes : s'.result.flatten = s.result.flatten ++ (rows.flatMap (rowBytes width) ++ gs.flatMap (glyphBytes width))
  started : s.rowCount = none → rows = []
  rows_ok : ∀ row ∈ rows, IsRow width row
  /-- The rows are counted when a glyph begins. -/
  counted : gs ≠ [] → ∀ k ∈ s.rowCount, k + rows.length = height
  codePoint_lt : ∀ g ∈ gs, g.codePoint < 2 ^ 32
  pictures_ok : ∀ g ∈ gs, ∀ row ∈ g.picture, IsRow width row
  complete : ∀ g ∈ gs.dropLast, g.picture.length = height

variable {decimal : Char → Option ℕ} {width height : ℕ} {s s' s₁ : State} {row line : List Char}
  {rows : List (List Char)} {gs : List SourceGlyph} {g : SourceGlyph}

theorem toBytes_eq_ok {n length : ℕ} {bytes : List UInt8} (h : toBytes n length = .ok bytes) :
    n < 256 ^ length ∧ bytes = toLittle length n := by
  unfold toBytes at h
  split at h
  next hlt =>
    cases h
    exact ⟨hlt, rfl⟩
  next => cases h

/-- An accepted row. -/
theorem addRow_eq_ok (h : addRow width s row = .ok s') : ∃ k, s.rowCount = some k ∧ row.length = width ∧
    s' = { s with rowCount := some (k + 1), result := s.result ++ [rowBytes width row] } := by
  unfold addRow at h
  split at h
  next => cases h
  next k hk =>
    split at h
    next => cases h
    next hwidth =>
      cases hbytes : toBytes (bitsInt row) (byteWidth width) with
      | error err =>
        rw [hbytes] at h
        cases h
      | ok bytes =>
        obtain ⟨-, rfl⟩ := toBytes_eq_ok hbytes
        rw [hbytes] at h
        cases h
        exact ⟨k, hk, not_not.mp hwidth, rfl⟩

/-- An accepted beginning of a glyph. -/
theorem addGlyph_eq_ok (h : addGlyph decimal height s line = .ok s') : ∃ c, int0 decimal line = some c ∧
    c < 2 ^ 32 ∧ (∀ k ∈ s.rowCount, k = height) ∧ s' = ⟨s.result ++ [toLittle 4 c], some c, some 0⟩ := by
  unfold addGlyph at h
  split at h
  next => cases h
  next hcount =>
    have hk : ∀ k ∈ s.rowCount, k = height := by
      intro k hk
      rw [Option.mem_def] at hk
      simpa [hk] using hcount
    cases hint : int0 decimal line with
    | none =>
      rw [hint] at h
      cases h
    | some c =>
      rw [hint] at h
      dsimp only at h
      cases hbytes : toBytes c 4 with
      | error err =>
        rw [hbytes] at h
        cases h
      | ok bytes =>
        obtain ⟨hlt, rfl⟩ := toBytes_eq_ok hbytes
        rw [hbytes] at h
        cases h
        exact ⟨c, rfl, hlt, hk, rfl⟩

/-- The rows begin with a row. -/
theorem Accepted.cons_row (hrow : IsRow width row)
    (hk : ∃ k, s.rowCount = some k ∧
      s₁ = { s with rowCount := some (k + 1), result := s.result ++ [rowBytes width row] })
    (h : Accepted width height s₁ s' rows gs) : Accepted width height s s' (row :: rows) gs := by
  obtain ⟨k, hk, rfl⟩ := hk
  refine ⟨?_, fun hnone => ?_, List.forall_mem_cons.mpr ⟨hrow, h.rows_ok⟩, fun hgs j hj => ?_, h.codePoint_lt,
    h.pictures_ok, h.complete⟩
  · rw [h.bytes, List.flatten_append, List.flatten_singleton, List.flatMap_cons, List.append_assoc, List.append_assoc]
  · rw [hk] at hnone
    cases hnone
  · rw [Option.mem_def, hk] at hj
    cases hj
    have hcount := h.counted hgs (k + 1) rfl
    rw [List.length_cons]
    omega

/-- A glyph begins, and has the rows that come before the next one. -/
theorem Accepted.cons_glyph {c : ℕ} (hc : c < 2 ^ 32) (hcount : ∀ k ∈ s.rowCount, k = height)
    (h : Accepted width height ⟨s.result ++ [toLittle 4 c], some c, some 0⟩ s' rows gs) :
    Accepted width height s s' [] (⟨c, rows⟩ :: gs) := by
  refine ⟨?_, fun _ => rfl, by simp, fun _ k hk => ?_, List.forall_mem_cons.mpr ⟨hc, h.codePoint_lt⟩,
    List.forall_mem_cons.mpr ⟨h.rows_ok, h.pictures_ok⟩, fun g hg => ?_⟩
  · rw [h.bytes, List.flatten_append, List.flatten_singleton, List.flatMap_cons, List.flatMap_nil, List.nil_append,
      glyphBytes, List.append_assoc, List.append_assoc]
  · rw [hcount k hk, List.length_nil, Nat.add_zero]
  · cases gs with
    | nil => cases hg
    | cons g' gs =>
      rcases List.mem_cons.mp hg with rfl | hg
      · have hclosed := h.counted (List.cons_ne_nil _ _) 0 rfl
        rwa [Nat.zero_add] at hclosed
      · exact h.complete g hg

/-- **What is accepted**: by induction on the lines. -/
theorem accepted {lines : List (List Char)} (h : lines.foldlM (addLine decimal width height) s = .ok s') :
    Accepted width height s s' (parse decimal lines).1 (parse decimal lines).2 := by
  induction lines generalizing s with
  | nil =>
    cases h
    exact ⟨(List.append_nil _).symm, fun _ => rfl, by simp [parse], fun hgs => absurd rfl hgs, by simp [parse],
      by simp [parse], by simp [parse]⟩
  | cons line lines ih =>
    rw [List.foldlM_cons] at h
    cases hline : addLine decimal width height s line with
    | error err =>
      rw [hline] at h
      cases h
    | ok s₁ =>
      rw [hline] at h
      have hrest := ih h
      rw [parse]
      unfold addLine at hline
      split at hline
      next hbitmap =>
        obtain ⟨k, hk, hwidth, rfl⟩ := addRow_eq_ok hline
        rw [if_pos hbitmap]
        exact hrest.cons_row ⟨hwidth, fun c hc => List.mem_takeWhile_imp hc⟩ ⟨k, hk, rfl⟩
      next hbitmap =>
        rw [if_neg hbitmap]
        split at hline
        next hhex =>
          obtain ⟨c, hint, hlt, hcount, rfl⟩ := addGlyph_eq_ok hline
          rw [if_pos hhex, hint]
          exact hrest.cons_glyph hlt hcount
        next hhex =>
          cases hline
          rw [if_neg hhex]
          exact hrest

/-- A source that is compiled. -/
theorem compile_eq_ok {src : List Char} {bytes : List UInt8} (h : compile decimal src width height = .ok bytes) :
    bytes = (sourceGlyphs decimal src).flatMap (glyphBytes width) ∧
      (∀ g ∈ sourceGlyphs decimal src, g.codePoint < 2 ^ 32 ∧ ∀ row ∈ g.picture, IsRow width row) ∧
      ∀ g ∈ (sourceGlyphs decimal src).dropLast, g.picture.length = height := by
  unfold compile at h
  cases hlines : (splitLines (src.dropWhile isSpace)).foldlM (addLine decimal width height) .initial with
  | error err =>
    rw [hlines] at h
    cases h
  | ok s =>
    rw [hlines] at h
    cases h
    have haccepted := accepted hlines
    refine ⟨?_, fun g hg => ⟨haccepted.codePoint_lt g hg, haccepted.pictures_ok g hg⟩, haccepted.complete⟩
    have hbytes := haccepted.bytes
    rw [haccepted.started rfl] at hbytes
    exact hbytes

/-! ### Reading a glyph -/

theorem length_rowBytes (row : List Char) : (rowBytes width row).length = byteWidth width := length_toLittle _ _

theorem length_glyphBytes (g : SourceGlyph) :
    (glyphBytes width g).length = 4 + g.picture.length * byteWidth width := by
  rw [glyphBytes, List.length_append, length_toLittle,
    length_flatMap_of_forall fun row _ => length_rowBytes row]

theorem mem_glyphPixels {w x y : ℕ} {glyph : Fin 16 → BitVec w} :
    (⟨x, y⟩ : Vector2D) ∈ Font.glyphPixels glyph ⟨0, 0⟩ ↔ ∃ hy : y < 16, x < w ∧ (glyph ⟨y, hy⟩).getMsbD x = true := by
  unfold Font.glyphPixels
  simp only [List.mem_flatMap, List.mem_finRange, true_and, List.mem_map, List.mem_filter, List.mem_range,
    Vector2D.ext_iff, Vector2D.add_x, Vector2D.add_y, Int.zero_add, Nat.cast_inj, BitVec.msb_shiftLeft]
  constructor
  · rintro ⟨dy, dx, ⟨hlt, hbit⟩, rfl, rfl⟩
    exact ⟨dy.isLt, hlt, hbit⟩
  · rintro ⟨hy, hlt, hbit⟩
    exact ⟨⟨y, hy⟩, x, ⟨hlt, hbit⟩, rfl, rfl⟩

/-- A row of a picture is read as it is drawn. -/
theorem getMsbD_row (hrow : IsRow width row) {x : ℕ} (hx : x < width) :
    (BitVec.ofNat width (bitsInt row)).getMsbD x = true ↔ row[x]? = some '*' ∨ row[x]? = some '@' := by
  obtain ⟨hwidth, hchars⟩ := hrow
  have hlen : x < (row.map fun x => x != '.').length := by
    rw [List.length_map, hwidth]
    exact hx
  have hbit := testBit_ofBits hlen
  rw [List.length_map, hwidth] at hbit
  have hlt : x < row.length := hwidth ▸ hx
  have hchar := hchars _ (List.getElem_mem hlt)
  rw [BitVec.getMsbD_eq_getLsbD, BitVec.getLsbD_ofNat, bitsInt, hbit, List.getElem_map, List.getElem?_eq_getElem hlt,
    Option.some_inj, Option.some_inj, decide_eq_true hx, decide_eq_true (by omega), Bool.true_and, Bool.true_and,
    bne_iff_ne]
  simp only [isBitmapChar, Bool.or_eq_true, beq_iff_eq] at hchar
  constructor
  · exact fun hdot => (or_assoc.mp hchar).resolve_left hdot
  · rintro (hstar | hat) hdot
    · rw [hstar] at hdot
      exact absurd hdot (by decide)
    · rw [hat] at hdot
      exact absurd hdot (by decide)
theorem bitsInt_lt (hw : width = 8 ∨ width = 16) (hrow : IsRow width row) : bitsInt row < 256 ^ byteWidth width := by
  have hlt := ofBits_lt (row.map fun x => x != '.')
  rw [List.length_map, hrow.1] at hlt
  rcases hw with rfl | rfl
  · exact hlt
  · exact hlt

/-- The row of an entry is the one of the picture. -/
theorem glyph_readGlyph (hw : width = 8 ∨ width = 16) (hrows : ∀ row ∈ g.picture, IsRow width row) (rest : List UInt8)
    {y : ℕ} (hy : y < 16) (hrow : g.picture[y]? = some row) :
    (readGlyph width (glyphBytes width g ++ rest)).glyph ⟨y, hy⟩ = .ofNat width (bitsInt row) := by
  obtain ⟨hlt, rfl⟩ := List.getElem?_eq_some_iff.mp hrow
  have hdrop : (glyphBytes width g ++ rest).drop (4 + y * byteWidth width) =
      rowBytes width g.picture[y] ++ ((g.picture.drop (y + 1)).flatMap (rowBytes width) ++ rest) := by
    rw [glyphBytes, List.append_assoc, ← List.drop_drop, List.drop_left' (length_toLittle 4 _),
      drop_flatMap hlt.le fun row _ => length_rowBytes row, ← List.getElem_cons_drop hlt, List.flatMap_cons,
      List.append_assoc]
  show BitVec.ofNat width (ofLittle (((glyphBytes width g ++ rest).drop (4 + y * byteWidth width)).take _)) = _
  rw [hdrop, List.take_left' (length_rowBytes _), rowBytes,
    ofLittle_toLittle (bitsInt_lt hw (hrows _ (List.getElem_mem hlt)))]

/-- **A glyph is read as it is drawn**, when it has all of its rows. -/
theorem drawnBy_readGlyph (hw : width = 8 ∨ width = 16) (hcode : g.codePoint < 2 ^ 32)
    (hrows : ∀ row ∈ g.picture, IsRow width row) (hlen : 16 ≤ g.picture.length)
    (hblank : ∀ x y, 16 ≤ y → ¬ g.Marked x y) (rest : List UInt8) :
    g.DrawnBy (readGlyph width (glyphBytes width g ++ rest)) := by
  constructor
  · show (UInt32.ofNat (ofLittle ((glyphBytes width g ++ rest).take 4))).toNat = g.codePoint
    rw [glyphBytes, List.append_assoc, List.take_left' (length_toLittle 4 _), ofLittle_toLittle hcode]
    exact UInt32.toNat_ofNat_of_lt' hcode
  · intro x y
    rw [mem_glyphPixels]
    constructor
    · rintro ⟨hy, hx, hbit⟩
      have hrow : g.picture[y]? = some g.picture[y] := List.getElem?_eq_getElem (hy.trans_le hlen)
      rw [glyph_readGlyph hw hrows rest hy hrow] at hbit
      exact ⟨_, hrow, (getMsbD_row (hrows _ (List.mem_of_getElem? hrow)) hx).mp hbit⟩
    · rintro ⟨row, hrow, hmark⟩
      have hy : y < 16 := by
        by_contra hge
        exact hblank x y (not_lt.mp hge) ⟨row, hrow, hmark⟩
      have hisRow := hrows _ (List.mem_of_getElem? hrow)
      have hx : x < width := by
        rw [← hisRow.1]
        rcases hmark with hmark | hmark
        · exact (List.getElem?_eq_some_iff.mp hmark).1
        · exact (List.getElem?_eq_some_iff.mp hmark).1
      refine ⟨hy, hx, ?_⟩
      rw [glyph_readGlyph hw hrows rest hy hrow]
      exact (getMsbD_row hisRow hx).mpr hmark
/-! ### The table of a source -/

/-- What is known of an accepted source: the glyphs but the last have 16 rows. -/
structure Regular (width : ℕ) (gs : List SourceGlyph) : Prop where
  codePoint_lt : ∀ g ∈ gs, g.codePoint < 2 ^ 32
  pictures_ok : ∀ g ∈ gs, ∀ row ∈ g.picture, IsRow width row
  complete : ∀ g ∈ gs.dropLast, g.picture.length = 16

theorem mem_dropLast_of_lt {k : ℕ} (hk : k + 1 < gs.length) : gs[k] ∈ gs.dropLast := by
  rw [← List.getElem_dropLast (i := k) (by rw [List.length_dropLast]; omega)]
  exact List.getElem_mem _

/-- From a glyph on, its bytes come first. -/
theorem Regular.drop_bytes (h : Regular width gs) {k : ℕ} (hk : k < gs.length) :
    (gs.flatMap (glyphBytes width)).drop (k * glyphSize width) =
      glyphBytes width gs[k] ++ (gs.drop (k + 1)).flatMap (glyphBytes width) := by
  have hsizes : ∀ g ∈ gs.take k, (glyphBytes width g).length = glyphSize width := by
    intro g hg
    obtain ⟨j, hj, rfl⟩ := List.getElem_of_mem hg
    rw [List.length_take] at hj
    rw [length_glyphBytes, List.getElem_take, h.complete _ (mem_dropLast_of_lt (by omega)), glyphSize]
  have hdrop := drop_flatMap hk.le hsizes []
  rw [List.append_nil, List.append_nil] at hdrop
  rw [hdrop, ← List.getElem_cons_drop hk, List.flatMap_cons]

/-- A picture of 16 rows has nothing below them. -/
theorem not_marked_of_length {x y : ℕ} (hlen : g.picture.length ≤ y) : ¬ g.Marked x y := by
  rintro ⟨row, hrow, -⟩
  rw [List.getElem?_eq_none hlen] at hrow
  cases hrow

/-- A glyph but the last is drawn by the entry with its index. -/
theorem Regular.drawnBy_of_lt (h : Regular width gs) (hw : width = 8 ∨ width = 16) {k : ℕ} (hk : k + 1 < gs.length) :
    gs[k].DrawnBy (readGlyph width ((gs.flatMap (glyphBytes width)).drop (k * glyphSize width))) := by
  have hmem := List.getElem_mem (show k < gs.length by omega)
  have hlen := h.complete _ (mem_dropLast_of_lt hk)
  rw [h.drop_bytes (by omega)]
  exact drawnBy_readGlyph hw (h.codePoint_lt _ hmem) (h.pictures_ok _ hmem) hlen.ge
    (fun x y hy => not_marked_of_length (hlen.trans_le hy)) _

theorem glyphSize_pos (width : ℕ) : 0 < glyphSize width := by
  unfold glyphSize
  omega

/-- The table has an entry for a glyph with its rows. -/
theorem Regular.lt_entries (h : Regular width gs) {k : ℕ} (hk : k < gs.length) (hlen : 16 ≤ gs[k].picture.length) :
    k < (gs.flatMap (glyphBytes width)).length / glyphSize width := by
  have hdrop := congrArg List.length (h.drop_bytes hk)
  rw [List.length_drop, List.length_append, length_glyphBytes] at hdrop
  have hsize : glyphSize width ≤ 4 + gs[k].picture.length * byteWidth width :=
    Nat.add_le_add_left (Nat.mul_le_mul_right _ hlen) 4
  have hpos := glyphSize_pos width
  rw [Nat.lt_iff_add_one_le, Nat.le_div_iff_mul_le hpos, Nat.succ_mul]
  omega

/-- Without all of its rows the last glyph has no entry. -/
theorem Regular.entries_le (h : Regular width gs) {k : ℕ} (hk : k + 1 = gs.length)
    (hlen : gs[k].picture.length < 16) (hw : 0 < byteWidth width) :
    (gs.flatMap (glyphBytes width)).length / glyphSize width ≤ k := by
  have hdrop := congrArg List.length (h.drop_bytes (show k < gs.length by omega))
  rw [List.length_drop, List.length_append, length_glyphBytes, hk, List.drop_length, List.flatMap_nil, List.length_nil]
    at hdrop
  have hsize : 4 + gs[k].picture.length * byteWidth width < glyphSize width :=
    Nat.add_lt_add_left (Nat.mul_lt_mul_of_pos_right hlen hw) 4
  rw [← Nat.lt_succ_iff, Nat.div_lt_iff_lt_mul (glyphSize_pos width), Nat.succ_mul]
  omega

theorem Regular.last_complete (h : Regular width gs) (hw : width = 8 ∨ width = 16)
    (hsorted : gs.Pairwise fun g g' => g.codePoint < g'.codePoint)
    (hall : ∀ g ∈ gs, ∃ entry ∈ readGlyphs width (gs.flatMap (glyphBytes width)), g.DrawnBy entry) :
    LastComplete gs := by
  intro g hg
  have hbyte : 0 < byteWidth width := by rcases hw with rfl | rfl <;> decide
  obtain ⟨gs', rfl⟩ := List.getLast?_eq_some_iff.mp hg
  obtain ⟨entry, hentry, hcode, hpixels⟩ := hall g (List.mem_append_right _ List.mem_cons_self)
  constructor
  · by_contra hlen
    obtain ⟨j, hj, rfl⟩ := List.mem_map.mp hentry
    have hbound : gs'.length < (gs' ++ [g]).length := by simp
    have hlast : (gs' ++ [g])[gs'.length] = g := List.getElem_concat_length rfl _
    have hle := h.entries_le (k := gs'.length) (by simp) (by rw [hlast]; omega) hbyte
    -- The entry that is found is that of another glyph.
    have hlt : j < gs'.length := (List.mem_range.mp hj).trans_le hle
    have hother := (h.drawnBy_of_lt hw (k := j) (by simpa using hlt)).1
    rw [hcode, List.getElem_append_left hlt] at hother
    have hless := (List.pairwise_append.mp hsorted).2.2 _ (List.getElem_mem hlt) g List.mem_cons_self
    omega
  · rintro x y hy hmark
    obtain ⟨hlt, -⟩ := mem_glyphPixels.mp ((hpixels x y).mpr hmark)
    omega

/-- **The way from the source of a font to its glyphs**: every glyph is in the table just when the last one has all
of its rows and marks nothing below them. -/
theorem pipeline_iff (decimal : Char → Option ℕ) (src : List Char) (width : ℕ) (bytes : List UInt8)
    (hw : width = 8 ∨ width = 16) (hcompile : compile decimal src width 16 = .ok bytes)
    (hsorted : (sourceGlyphs decimal src).Pairwise fun g g' => g.codePoint < g'.codePoint) :
    (∀ g ∈ sourceGlyphs decimal src, ∃ entry ∈ readGlyphs width bytes, g.DrawnBy entry) ↔
      LastComplete (sourceGlyphs decimal src) := by
  obtain ⟨rfl, hok, hcomplete⟩ := compile_eq_ok hcompile
  have h : Regular width (sourceGlyphs decimal src) := ⟨fun g hg => (hok g hg).1, fun g hg => (hok g hg).2, hcomplete⟩
  refine ⟨h.last_complete hw hsorted, fun hlast g hg => ?_⟩
  generalize sourceGlyphs decimal src = gs at h hlast hg
  obtain ⟨k, hk, rfl⟩ := List.getElem_of_mem hg
  have hrows : 16 ≤ gs[k].picture.length ∧ ∀ x y, 16 ≤ y → ¬ gs[k].Marked x y := by
    rcases Nat.lt_or_ge (k + 1) gs.length with hlt | hge
    · have hlen := h.complete _ (mem_dropLast_of_lt hlt)
      exact ⟨hlen.ge, fun x y hy => not_marked_of_length (hlen.trans_le hy)⟩
    · refine hlast _ ?_
      rw [List.getLast?_eq_getElem?, show gs.length - 1 = k by omega]
      exact List.getElem?_eq_getElem hk
  refine ⟨_, List.mem_map.mpr ⟨k, List.mem_range.mpr (h.lt_entries hk hrows.1), rfl⟩, ?_⟩
  rw [h.drop_bytes hk]
  exact drawnBy_readGlyph hw (h.codePoint_lt _ hg) (h.pictures_ok _ hg) hrows.1 hrows.2 _

/-- A glyph of one row. -/
def oneRow : List Char := ['0', 'x', '4', '1', '\n', '.', '.', '.', '@', '.', '.', '.', '.', '\n']

/-- A glyph of 16 rows. -/
def sixteenRows : List Char := oneRow ++ (List.replicate 15 (oneRow.drop 5)).flatten

/-- A glyph of 16 rows gets into the table. -/
theorem pipeline_iff_complete : ∃ bytes, compile (fun _ => none) sixteenRows 8 16 = .ok bytes ∧
    ∀ g ∈ sourceGlyphs (fun _ => none) sixteenRows, ∃ entry ∈ readGlyphs 8 bytes, g.DrawnBy entry := by
  refine ⟨[0x41, 0, 0, 0] ++ List.replicate 16 0x10, rfl, (pipeline_iff (fun _ => none) sixteenRows 8 _ (.inl rfl) rfl
    (List.pairwise_singleton _ _)).mpr fun g hg => ?_⟩
  cases hg
  exact ⟨le_rfl, fun x y hy => not_marked_of_length hy⟩

/-- A glyph of one row is accepted, and gets lost: the table is empty. -/
theorem last_glyph_lost : compile (fun _ => none) oneRow 8 16 = .ok [0x41, 0, 0, 0, 0x10] ∧
    (sourceGlyphs (fun _ => none) oneRow).map SourceGlyph.codePoint = [0x41] ∧
    ¬ ∀ g ∈ sourceGlyphs (fun _ => none) oneRow, ∃ entry ∈ readGlyphs 8 [0x41, 0, 0, 0, 0x10], g.DrawnBy entry := by
  refine ⟨rfl, rfl, fun hall => ?_⟩
  obtain ⟨entry, hentry, -⟩ := hall _ List.mem_cons_self
  cases hentry

end DuvuvurKernel.Makefont
