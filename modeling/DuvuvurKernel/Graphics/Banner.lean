import DuvuvurKernel.Graphics.FrameBytes
import Mathlib.Tactic.Linarith

/-!
# The banner, and the emulated screen

`DrawBannerAndShrinkScreenTo768x543` of `main.cpp`: the kernel draws on a screen of a fixed size in
the middle of the physical one, and a banner below it, once and for all.

## The model

Numbers are those of the source's types: a `uint32_t` is taken modulo 2^32 (`u32`), and becomes an
`int` in two's complement (`i32`); an `int` that overflows is undefined. What is drawn is the list of
the pixels, each with the index at which the banner is read and the bytes that are stored; the
place of the emulated screen is its offset from `frame_buffer`.

**Result** (`banner_law_iff`): everything is in its place just when the last pixel of the banner has
a number below 2^29. `PrimitivelyWritePixel` computes the index of its bytes as an `int`, where
`PixelAt` and `FrameAddrAt` compute theirs as a `uint32_t` (`banner_overflow`).
-/

namespace DuvuvurKernel

open Lib.Strips

/-- `OsBannerPixels`: the pixels, and a terminator behind them. -/
structure OsBannerPixels where
  width : ℕ
  height : ℕ
  bytesPerPixel : ℕ
  pixelData : ℕ → UInt8

/-- The size of `pixel_data`. -/
def OsBannerPixels.dataSize (banner : OsBannerPixels) : ℕ := banner.width * banner.height * banner.bytesPerPixel + 1

namespace Banner

/-- A value of type `uint32_t`. -/
def u32 (n : ℤ) : ℤ := n % 2 ^ 32

/-- A `uint32_t` as an `int`. -/
def i32 (n : ℤ) : ℤ := n.bmod (2 ^ 32)

/-- A value computed as an `int`. -/
def int (n : ℤ) : Option ℤ := if -2 ^ 31 ≤ n ∧ n < 2 ^ 31 then some n else none

/-- `FIXED_HORIZONTAL_RES`. -/
def fixedHorizontalRes : ℤ := 768

/-- `FIXED_VERTICAL_RES`. -/
def fixedVerticalRes : ℤ := 543

/-- A pixel of the banner. -/
structure Drawn where
  pos : Vector2D
  /-- The index of the first byte that is read of `pixel_data`. -/
  read : ℤ
  /-- The bytes that are stored, if storing them is defined. -/
  stores : Option (List (ℤ × UInt8))

/-- What `DrawBannerAndShrinkScreenTo768x543` does and returns. -/
structure Shrunk where
  drawn : List Drawn
  /-- `frame_buffer` of the new configuration, from the old one on. -/
  frameBuffer : ℤ
  config : FrameBufferConfig

variable (config : FrameBufferConfig) (banner : OsBannerPixels)

/-- `PrimitivelyWritePixel`: the bytes it stores. -/
def primitivelyWritePixel (x y : ℤ) (c : PixelColor) : Option (List (ℤ × UInt8)) :=
  let pixelPosition := i32 (u32 (config.pixelsPerScanLine * y) + x)
  (int (4 * pixelPosition)).map fun p =>
    match config.pixelFormat with
    | .rgbResv8BitPerColor => [(p, c.r), (p + 1, c.g), (p + 2, c.b)]
    | .bgrResv8BitPerColor => [(p, c.b), (p + 1, c.g), (p + 2, c.r)]

/-- `margin_left`. -/
def marginLeft : ℤ := u32 (config.horizontalResolution - fixedHorizontalRes) / 2

/-- `margin_top`. -/
def marginTop : ℤ := u32 (config.verticalResolution - fixedVerticalRes) / 3

/-- `y_start`. -/
def yStart : ℤ := u32 (fixedVerticalRes + marginTop config)

/-- `y_end`. -/
def yEnd : ℤ := min (u32 (yStart config + banner.height)) config.verticalResolution

/-- `x_center`. -/
def xCenter : ℤ := i32 (fixedHorizontalRes / 2 + marginLeft config)

/-- `x_left`. -/
def xLeft : ℤ := i32 (xCenter config - (banner.width / 2 : ℕ))

/-- `x_right`. -/
def xRight : ℤ := i32 (xLeft config banner + banner.width)

/-- `x_start`. -/
def xStart : ℤ := max (xLeft config banner) 0

/-- `x_end`. -/
def xEnd : ℤ := min (xRight config banner) (i32 config.horizontalResolution)

/-- The index of a pixel in `pixel_data`. -/
def readIndex (x y : ℤ) : ℤ :=
  u32 (u32 (u32 (banner.width * u32 (y - yStart config)) + (x - xLeft config banner)) * banner.bytesPerPixel)

/-- The body of the two loops. -/
def drawPixel (x y : ℤ) : Drawn :=
  let p := readIndex config banner x y
  let byte (i : ℤ) := banner.pixelData (p + i).toNat
  ⟨⟨x, y⟩, p, primitivelyWritePixel config x y ⟨byte 0, byte 1, byte 2⟩⟩

/-- The integers from `a` on, up to `b`. -/
def upTo (a b : ℤ) : List ℤ := (List.range (b - a).toNat).map fun i : ℕ => a + i

/-- `DrawBannerAndShrinkScreenTo768x543`; without a result one of its assertions has failed. -/
def drawBannerAndShrinkScreenTo768x543 : Option Shrunk :=
  if config.horizontalResolution < fixedHorizontalRes ∨ config.verticalResolution < fixedVerticalRes then none
  else
    let drawn := (upTo (i32 (yStart config)) (yEnd config banner)).flatMap fun y =>
      (upTo (xStart config banner) (xEnd config banner)).map fun x => drawPixel config banner x y
    some {
      drawn := drawn
      frameBuffer := u32 (bytesPerPixel config.pixelFormat *
        u32 (u32 (config.pixelsPerScanLine * marginTop config) + marginLeft config))
      config := ⟨config.pixelsPerScanLine, 768, 543, config.pixelFormat⟩ }

/-! ### What is asked of it -/

/-- A physical screen and a banner of the sizes in question. -/
structure Sizes : Prop where
  horizontal : 768 ≤ config.horizontalResolution
  vertical : 543 ≤ config.verticalResolution
  line : config.horizontalResolution ≤ config.pixelsPerScanLine
  line_lt : config.pixelsPerScanLine < 2 ^ 15
  vertical_lt : config.verticalResolution < 2 ^ 15
  width_lt : banner.width < 2 ^ 15
  height_lt : banner.height < 2 ^ 15
  format : 2 ≤ banner.bytesPerPixel ∧ banner.bytesPerPixel ≤ 4

/-- A pixel of the banner is on the physical screen and below the emulated one, its bytes are stored there, and the
bytes that are read are some of `pixel_data`. -/
structure Drawn.InPlace (px : Drawn) : Prop where
  inside : config.outline.Contains px.pos
  below : marginTop config + 543 ≤ px.pos.y
  stored : ∃ stores, px.stores = some stores ∧
    ∀ st ∈ stores, config.offset px.pos ≤ st.1 ∧ st.1 < config.offset px.pos + 4
  read : 0 ≤ px.read ∧ px.read + 2 < banner.dataSize

/-- A pixel of the emulated screen is one of the physical screen, moved by the margins, and not one of the banner. -/
structure Shrunk.Shows (r : Shrunk) (p : Vector2D) : Prop where
  address : r.frameBuffer + r.config.pixelAt p = config.offset (p + ⟨marginLeft config, marginTop config⟩)
  inside : config.outline.Contains (p + ⟨marginLeft config, marginTop config⟩)
  apart : ∀ px ∈ r.drawn, px.pos ≠ p + ⟨marginLeft config, marginTop config⟩ ∧ ∀ stores, px.stores = some stores →
    ∀ st ∈ stores, ¬ (r.frameBuffer + r.config.pixelAt p ≤ st.1 ∧ st.1 < r.frameBuffer + r.config.pixelAt p + 4)

/-- The banner and the emulated screen are in their places. -/
structure Law (r : Shrunk) : Prop where
  banner : ∀ px ∈ r.drawn, px.InPlace config banner
  size : r.config.outline = ⟨⟨0, 0⟩, ⟨768, 543⟩⟩
  screen : ∀ p, r.config.outline.Contains p → r.Shows config p

/-- There is no pixel of the banner, or the number of the last one in the frame buffer is below 2^29. -/
def Fits : Prop :=
  banner.width = 0 ∨ banner.height = 0 ∨ config.verticalResolution = 543 ∨
    (config.pixelsPerScanLine : ℤ) *
        (min (543 + ((config.verticalResolution : ℤ) - 543) / 3 + banner.height) config.verticalResolution - 1) +
      (min (384 + ((config.horizontalResolution : ℤ) - 768) / 2 - banner.width / 2 + banner.width)
        config.horizontalResolution - 1) < 2 ^ 29

variable {config : FrameBufferConfig} {banner : OsBannerPixels} {x y n : ℤ}

/-! ### Numbers -/

theorem u32_of_lt (h0 : 0 ≤ n) (h : n < 2 ^ 32) : u32 n = n := Int.emod_eq_of_lt h0 h

theorem i32_of_lt (h0 : -2 ^ 31 ≤ n) (h : n < 2 ^ 31) : i32 n = n := Int.bmod_eq_of_le (by omega) (by omega)

theorem int_eq_some_iff {m : ℤ} : int n = some m ↔ n = m ∧ -2 ^ 31 ≤ n ∧ n < 2 ^ 31 := by
  unfold int
  split
  next h => rw [Option.some_inj, and_iff_left h]
  next h => exact iff_of_false (by simp) fun hall => h hall.2

theorem mem_upTo {a b : ℤ} : n ∈ upTo a b ↔ a ≤ n ∧ n < b := by
  unfold upTo
  simp only [List.mem_map, List.mem_range]
  constructor
  · rintro ⟨i, hi, rfl⟩
    omega
  · rintro ⟨hle, hlt⟩
    exact ⟨(n - a).toNat, by omega, by omega⟩

/-- Nothing overflows in the margins and the corners. -/
structure Corners (config : FrameBufferConfig) (banner : OsBannerPixels) : Prop where
  marginLeft_eq : marginLeft config = ((config.horizontalResolution : ℤ) - 768) / 2
  marginTop_eq : marginTop config = ((config.verticalResolution : ℤ) - 543) / 3
  yStart_eq : yStart config = 543 + marginTop config
  yEnd_eq : yEnd config banner = min (yStart config + banner.height) config.verticalResolution
  xLeft_eq : xLeft config banner = 384 + marginLeft config - banner.width / 2
  xStart_eq : xStart config banner = max (xLeft config banner) 0
  xEnd_eq : xEnd config banner = min (xLeft config banner + banner.width) config.horizontalResolution

theorem Sizes.corners (h : Sizes config banner) : Corners config banner := by
  obtain ⟨hhorizontal, hvertical, hline, hlt, hvlt, hwidth, hheight, -⟩ := h
  have hleft : marginLeft config = ((config.horizontalResolution : ℤ) - 768) / 2 := by
    rw [marginLeft, u32_of_lt] <;> unfold fixedHorizontalRes <;> omega
  have htop : marginTop config = ((config.verticalResolution : ℤ) - 543) / 3 := by
    rw [marginTop, u32_of_lt] <;> unfold fixedVerticalRes <;> omega
  have hystart : yStart config = 543 + marginTop config := by
    rw [yStart, u32_of_lt] <;> unfold fixedVerticalRes <;> omega
  have hcenter : xCenter config = 384 + marginLeft config := by
    rw [xCenter, i32_of_lt] <;> unfold fixedHorizontalRes <;> omega
  have hxleft : xLeft config banner = 384 + marginLeft config - banner.width / 2 := by
    rw [xLeft, i32_of_lt, hcenter] <;> omega
  refine ⟨hleft, htop, hystart, ?_, hxleft, rfl, ?_⟩
  · rw [yEnd, u32_of_lt] <;> omega
  · rw [xEnd, xRight, i32_of_lt, i32_of_lt] <;> omega

/-- A pixel that is drawn. -/
def IsDrawn (config : FrameBufferConfig) (banner : OsBannerPixels) (x y : ℤ) : Prop :=
  (yStart config ≤ y ∧ y < yEnd config banner) ∧ xStart config banner ≤ x ∧ x < xEnd config banner

/-- It is on the screen, below the emulated one, and in the banner. -/
theorem Corners.bounds (h : Corners config banner) (hd : IsDrawn config banner x y) :
    (0 ≤ x ∧ x < config.horizontalResolution) ∧ (marginTop config + 543 ≤ y ∧ y < config.verticalResolution) ∧
      (0 ≤ x - xLeft config banner ∧ x - xLeft config banner < banner.width) ∧
      0 ≤ y - yStart config ∧ y - yStart config < banner.height := by
  obtain ⟨-, -, hystart, hyend, -, hxstart, hxend⟩ := h
  obtain ⟨⟨hy, hy'⟩, hx, hx'⟩ := hd
  omega

/-- The number of a pixel of the screen is an `int`. -/
theorem Sizes.number_bounds (h : Sizes config banner) (hx : 0 ≤ x ∧ x < config.horizontalResolution)
    (hy : 0 ≤ y ∧ y < config.verticalResolution) :
    0 ≤ config.pixelsPerScanLine * y ∧ config.pixelsPerScanLine * y + x < 2 ^ 31 := by
  obtain ⟨-, -, hline, hlt, hvlt, -, -, -⟩ := h
  have hnonneg : 0 ≤ (config.pixelsPerScanLine : ℤ) * y := Int.mul_nonneg (Int.natCast_nonneg _) hy.1
  have hle : (config.pixelsPerScanLine : ℤ) * y ≤ 2 ^ 15 * 2 ^ 15 :=
    mul_le_mul (by omega) (by omega) hy.1 (by decide)
  omega

theorem Sizes.marginTop_nonneg (h : Sizes config banner) : 0 ≤ marginTop config := by
  rw [h.corners.marginTop_eq]
  exact Int.ediv_nonneg (Int.sub_nonneg_of_le (Int.ofNat_le.mpr h.vertical)) (by decide)

theorem offset_eq_number (config : FrameBufferConfig) (x y : ℤ) :
    config.offset ⟨x, y⟩ = 4 * (config.pixelsPerScanLine * y + x) := by
  rw [FrameBufferConfig.offset, FrameBufferConfig.lineBytes]
  ring

/-- What is stored for a pixel, as long as its number is below 2^29. -/
theorem Sizes.primitivelyWritePixel_spec (h : Sizes config banner) (hx : 0 ≤ x ∧ x < config.horizontalResolution)
    (hy : 0 ≤ y ∧ y < config.verticalResolution) (c : PixelColor) :
    (∃ stores, primitivelyWritePixel config x y c = some stores ∧
        ∀ st ∈ stores, config.offset ⟨x, y⟩ ≤ st.1 ∧ st.1 < config.offset ⟨x, y⟩ + 4) ↔
      config.pixelsPerScanLine * y + x < 2 ^ 29 := by
  obtain ⟨hnonneg, hlt⟩ := h.number_bounds hx hy
  have hposition : i32 (u32 (config.pixelsPerScanLine * y) + x) = config.pixelsPerScanLine * y + x := by
    rw [u32_of_lt hnonneg (by omega), i32_of_lt (by omega) hlt]
  rw [offset_eq_number]
  unfold primitivelyWritePixel
  rw [hposition]
  dsimp only
  constructor
  · rintro ⟨stores, hstores, -⟩
    obtain ⟨p, hp, -⟩ := Option.map_eq_some_iff.mp hstores
    have hint := int_eq_some_iff.mp hp
    omega
  · intro hnumber
    have hint : int (4 * (config.pixelsPerScanLine * y + x)) = some (4 * (config.pixelsPerScanLine * y + x)) :=
      int_eq_some_iff.mpr ⟨rfl, by omega, by omega⟩
    rw [hint]
    refine ⟨_, rfl, ?_⟩
    cases config.pixelFormat <;> simp

/-- The index of a pixel of the banner does not overflow, and its bytes are in the data. -/
theorem Sizes.readIndex_bounds (h : Sizes config banner) (hd : IsDrawn config banner x y) :
    0 ≤ readIndex config banner x y ∧ readIndex config banner x y + 2 < banner.dataSize := by
  obtain ⟨-, -, ⟨hx, hx'⟩, hy, hy'⟩ := h.corners.bounds hd
  obtain ⟨-, -, -, -, -, hwidth, hheight, hformat⟩ := h
  obtain ⟨dx, hdx⟩ : ∃ dx, dx = x - xLeft config banner := ⟨_, rfl⟩
  obtain ⟨dy, hdy⟩ : ∃ dy, dy = y - yStart config := ⟨_, rfl⟩
  rw [← hdx] at hx hx'
  rw [← hdy] at hy hy'
  -- The number of the pixel in the banner.
  have hrow : 0 ≤ (banner.width : ℤ) * dy := Int.mul_nonneg (Int.natCast_nonneg _) hy
  have hnumber : banner.width * dy + dx + 1 ≤ (banner.width * banner.height : ℕ) := by
    have hmul : (banner.width : ℤ) * (dy + 1) ≤ banner.width * banner.height :=
      mul_le_mul_of_nonneg_left (by omega) (Int.natCast_nonneg _)
    push_cast
    linarith
  have harea : banner.width * banner.height ≤ 2 ^ 30 - 2 ^ 15 :=
    (Nat.mul_le_mul (Nat.le_pred_of_lt hwidth) (Nat.le_pred_of_lt hheight)).trans (by decide)
  have hsize : (banner.width * dy + dx + 1) * banner.bytesPerPixel ≤
      ((banner.width * banner.height * banner.bytesPerPixel : ℕ) : ℤ) := by
    have hmul := mul_le_mul_of_nonneg_right hnumber (Int.natCast_nonneg banner.bytesPerPixel)
    rw [← Nat.cast_mul] at hmul
    exact hmul
  rw [add_mul _ (1 : ℤ), one_mul] at hsize
  have hindex : 0 ≤ (banner.width * dy + dx) * banner.bytesPerPixel :=
    Int.mul_nonneg (by omega) (Int.natCast_nonneg _)
  have htotal : banner.width * banner.height * banner.bytesPerPixel ≤ (2 ^ 30 - 2 ^ 15) * 4 :=
    Nat.mul_le_mul harea hformat.2
  have hread : readIndex config banner x y = (banner.width * dy + dx) * banner.bytesPerPixel := by
    have hposition : u32 (banner.width * dy + dx) = banner.width * dy + dx := u32_of_lt (by omega) (by omega)
    unfold readIndex
    rw [← hdx, ← hdy, u32_of_lt hy (by omega), u32_of_lt hrow (by omega), hposition, u32_of_lt hindex (by omega)]
  rw [hread, OsBannerPixels.dataSize]
  omega

/-- The last row and the last column of what is drawn, as long as something is. -/
theorem last_drawn {hr vr width height xl xs xe ys ye : ℤ} (hhr : 768 ≤ hr) (hvr : 543 ≤ vr) (hwidth : 0 ≤ width)
    (hheight : 0 ≤ height) (hlt : width < 2 ^ 15) (hxl : xl = 384 + (hr - 768) / 2 - width / 2)
    (hys : ys = 543 + (vr - 543) / 3) (hye : ye = min (ys + height) vr) (hxs : xs = max xl 0)
    (hxe : xe = min (xl + width) hr) :
    (ys < ye ↔ height ≠ 0 ∧ vr ≠ 543) ∧ (xs < xe ↔ width ≠ 0) := by
  subst hxl hys hye hxs hxe
  omega

/-- The last pixel that is drawn has the greatest number. -/
theorem fits_iff (h : Sizes config banner) : Fits config banner ↔
    ∀ x y, IsDrawn config banner x y → config.pixelsPerScanLine * y + x < 2 ^ 29 := by
  obtain ⟨hleft, htop, hystart, hyend, hxleft, hxstart, hxend⟩ := h.corners
  rw [htop] at hystart
  rw [hleft] at hxleft
  obtain ⟨hrows, hcolumns⟩ := last_drawn (Int.ofNat_le.mpr h.horizontal) (Int.ofNat_le.mpr h.vertical)
    (Int.natCast_nonneg banner.width) (Int.natCast_nonneg banner.height) (Int.ofNat_lt.mpr h.width_lt) hxleft hystart
    hyend hxstart hxend
  have hfits : Fits config banner ↔ banner.width = 0 ∨ banner.height = 0 ∨ config.verticalResolution = 543 ∨
      config.pixelsPerScanLine * (yEnd config banner - 1) + (xEnd config banner - 1) < 2 ^ 29 := by
    rw [hyend, hxend, hystart, hxleft, Fits]
  rw [hfits]
  constructor
  · rintro hlast x y ⟨⟨hy, hy'⟩, hx, hx'⟩
    obtain ⟨hheight, hvertical⟩ := hrows.mp (hy.trans_lt hy')
    have hwidth := hcolumns.mp (hx.trans_lt hx')
    have hlast : config.pixelsPerScanLine * (yEnd config banner - 1) + (xEnd config banner - 1) < 2 ^ 29 :=
      ((hlast.resolve_left (mod_cast hwidth)).resolve_left (mod_cast hheight)).resolve_left (mod_cast hvertical)
    have hmul : (config.pixelsPerScanLine : ℤ) * y ≤ config.pixelsPerScanLine * (yEnd config banner - 1) :=
      mul_le_mul_of_nonneg_left (Int.le_sub_one_of_lt hy') (Int.natCast_nonneg _)
    linarith
  · intro hall
    by_contra hnot
    simp only [not_or] at hnot
    obtain ⟨hwidth, hheight, hvertical, hlast⟩ := hnot
    have hrow := hrows.mpr ⟨mod_cast hheight, mod_cast hvertical⟩
    have hcolumn := hcolumns.mpr (mod_cast hwidth)
    exact hlast (hall _ _ ⟨⟨Int.le_sub_one_of_lt hrow, Int.sub_one_lt_of_le le_rfl⟩, Int.le_sub_one_of_lt hcolumn,
      Int.sub_one_lt_of_le le_rfl⟩)

/-! ### The emulated screen -/

/-- A pixel of the emulated screen is on the physical one, above the banner. -/
theorem Sizes.shows (h : Sizes config banner) {p : Vector2D} (hp : (0 ≤ p.x ∧ p.x < 768) ∧ 0 ≤ p.y ∧ p.y < 543) :
    (0 ≤ p.x + marginLeft config ∧ p.x + marginLeft config < config.horizontalResolution) ∧
      (0 ≤ p.y + marginTop config ∧ p.y + marginTop config < config.verticalResolution) ∧
      u32 (bytesPerPixel config.pixelFormat *
            u32 (u32 (config.pixelsPerScanLine * marginTop config) + marginLeft config)) +
          FrameBufferConfig.pixelAt ⟨config.pixelsPerScanLine, 768, 543, config.pixelFormat⟩ p =
        config.offset (p + ⟨marginLeft config, marginTop config⟩) := by
  obtain ⟨hleft, htop, -⟩ := h.corners
  have hsizes := h
  obtain ⟨hhorizontal, hvertical, hline, hlt, hvlt, -⟩ := h
  have hinside : (0 ≤ p.x + marginLeft config ∧ p.x + marginLeft config < config.horizontalResolution) ∧
      0 ≤ p.y + marginTop config ∧ p.y + marginTop config < config.verticalResolution := by
    omega
  refine ⟨hinside.1, hinside.2, ?_⟩
  have hpps : (0 : ℤ) ≤ config.pixelsPerScanLine := Int.natCast_nonneg _
  have hmargin : 0 ≤ config.pixelsPerScanLine * marginTop config ∧
      config.pixelsPerScanLine * marginTop config ≤ 2 ^ 15 * 10741 :=
    ⟨Int.mul_nonneg hpps (by omega), mul_le_mul (by omega) (by omega) (by omega) (by decide)⟩
  have hrow : 0 ≤ config.pixelsPerScanLine * p.y ∧ config.pixelsPerScanLine * p.y ≤ 2 ^ 15 * 543 :=
    ⟨Int.mul_nonneg hpps hp.2.1, mul_le_mul (by omega) (by omega) hp.2.1 (by decide)⟩
  have hpoint : p + ⟨marginLeft config, marginTop config⟩ = ⟨p.x + marginLeft config, p.y + marginTop config⟩ := rfl
  have hcorner : u32 (config.pixelsPerScanLine * marginTop config + marginLeft config) =
      config.pixelsPerScanLine * marginTop config + marginLeft config := u32_of_lt (by omega) (by omega)
  have hnumber : FrameBufferConfig.pixelAt ⟨config.pixelsPerScanLine, 768, 543, config.pixelFormat⟩ p =
      4 * (config.pixelsPerScanLine * p.y + p.x) := u32_of_lt (by dsimp only; omega) (by dsimp only; omega)
  rw [hpoint, offset_eq_number, hnumber, bytesPerPixel_eq, u32_of_lt hmargin.1 (by omega), hcorner,
    u32_of_lt (by omega) (by omega)]
  ring

/-! ### The whole of it -/

theorem Sizes.mem_drawn (h : Sizes config banner) {px : Drawn} :
    px ∈ ((upTo (i32 (yStart config)) (yEnd config banner)).flatMap fun y =>
        (upTo (xStart config banner) (xEnd config banner)).map fun x => drawPixel config banner x y) ↔
      ∃ x y, IsDrawn config banner x y ∧ px = drawPixel config banner x y := by
  have hystart : i32 (yStart config) = yStart config := by
    obtain ⟨-, htop, hystart, -⟩ := h.corners
    have hvlt := h.vertical_lt
    exact i32_of_lt (by omega) (by omega)
  rw [hystart]
  simp only [List.mem_flatMap, List.mem_map, mem_upTo]
  constructor
  · rintro ⟨y, hy, x, hx, rfl⟩
    exact ⟨x, y, ⟨hy, hx⟩, rfl⟩
  · rintro ⟨x, y, ⟨hy, hx⟩, rfl⟩
    exact ⟨y, hy, x, hx, rfl⟩

/-- The emulated screen is apart from a banner that is in its place. -/
theorem Sizes.apart (h : Sizes config banner) {p : Vector2D} (hp : (0 ≤ p.x ∧ p.x < 768) ∧ 0 ≤ p.y ∧ p.y < 543)
    {px : Drawn} (hpx : px.InPlace config banner) :
    px.pos ≠ p + ⟨marginLeft config, marginTop config⟩ ∧ ∀ stores, px.stores = some stores → ∀ st ∈ stores,
      ¬ (config.offset (p + ⟨marginLeft config, marginTop config⟩) ≤ st.1 ∧
        st.1 < config.offset (p + ⟨marginLeft config, marginTop config⟩) + 4) := by
  obtain ⟨hx, hy, -⟩ := h.shows hp
  have hne : px.pos ≠ p + ⟨marginLeft config, marginTop config⟩ := by
    intro heq
    have hbelow := heq ▸ hpx.below
    change marginTop config + 543 ≤ p.y + marginTop config at hbelow
    omega
  refine ⟨hne, ?_⟩
  intro stores hstores st hst hin
  obtain ⟨stores', hstores', hall⟩ := hpx.stored
  obtain rfl : stores = stores' := Option.some_inj.mp (hstores.symm.trans hstores')
  have hstore := hall st hst
  have hapart := offset_apart h.line hpx.inside (contains_outline_iff.mpr ⟨hx, hy⟩) hne
  omega

theorem Sizes.draw_eq (h : Sizes config banner) : drawBannerAndShrinkScreenTo768x543 config banner =
    some ⟨(upTo (i32 (yStart config)) (yEnd config banner)).flatMap fun y =>
        (upTo (xStart config banner) (xEnd config banner)).map fun x => drawPixel config banner x y,
      u32 (bytesPerPixel config.pixelFormat *
        u32 (u32 (config.pixelsPerScanLine * marginTop config) + marginLeft config)),
      ⟨config.pixelsPerScanLine, 768, 543, config.pixelFormat⟩⟩ := by
  have hhorizontal := h.horizontal
  have hvertical := h.vertical
  exact if_neg (by unfold fixedHorizontalRes fixedVerticalRes; omega)

theorem Sizes.number_lt_of_law (h : Sizes config banner) {r : Shrunk}
    (hr : drawBannerAndShrinkScreenTo768x543 config banner = some r) (hlaw : Law config banner r)
    (hd : IsDrawn config banner x y) : config.pixelsPerScanLine * y + x < 2 ^ 29 := by
  obtain rfl := Option.some_inj.mp (h.draw_eq.symm.trans hr)
  obtain ⟨hx, hy, -⟩ := h.corners.bounds hd
  have htop := h.marginTop_nonneg
  have hplace := hlaw.banner _ (h.mem_drawn.mpr ⟨x, y, hd, rfl⟩)
  exact (h.primitivelyWritePixel_spec hx ⟨by omega, hy.2⟩ _).mp hplace.stored

theorem Sizes.inPlace (h : Sizes config banner) (hd : IsDrawn config banner x y)
    (hnumber : config.pixelsPerScanLine * y + x < 2 ^ 29) : (drawPixel config banner x y).InPlace config banner := by
  obtain ⟨hx, ⟨hy, hy'⟩, -⟩ := h.corners.bounds hd
  have hnonneg : 0 ≤ y := (Int.add_nonneg h.marginTop_nonneg (by decide)).trans hy
  exact {
    inside := contains_outline_iff.mpr ⟨hx, hnonneg, hy'⟩
    below := hy
    stored := (h.primitivelyWritePixel_spec hx ⟨hnonneg, hy'⟩ _).mpr hnumber
    read := h.readIndex_bounds hd }

/-- **The banner and the emulated screen.** For all screens and banners of the sizes in question, everything is in its
place just when there is nothing of the banner to be drawn or the number of its last pixel is below 2^29. -/
theorem banner_law_iff (h : Sizes config banner) :
    (∃ r, drawBannerAndShrinkScreenTo768x543 config banner = some r ∧ Law config banner r) ↔ Fits config banner := by
  rw [fits_iff h]
  constructor
  · rintro ⟨r, hr, hlaw⟩ x y hd
    exact h.number_lt_of_law hr hlaw hd
  · intro hall
    refine ⟨_, h.draw_eq, ?_, rfl, ?_⟩
    · intro px hpx
      obtain ⟨x, y, hd, rfl⟩ := h.mem_drawn.mp hpx
      exact h.inPlace hd (hall x y hd)
    · intro p hp
      have hpoint := contains_outline_iff.mp hp
      obtain ⟨hx, hy, haddress⟩ := h.shows hpoint
      refine ⟨haddress, contains_outline_iff.mpr ⟨hx, hy⟩, ?_⟩
      intro px hpx
      obtain ⟨x, y, hd, rfl⟩ := h.mem_drawn.mp hpx
      dsimp only
      rw [haddress]
      exact h.apart hpoint (h.inPlace hd (hall x y hd))

/-- The banner of the repository, on a screen of 1024 by 768 pixels. -/
theorem banner_law_iff_osbanner : ∃ r,
    drawBannerAndShrinkScreenTo768x543 ⟨1024, 1024, 768, .bgrResv8BitPerColor⟩ ⟨768, 38, 3, fun _ => 255⟩ = some r ∧
      Law ⟨1024, 1024, 768, .bgrResv8BitPerColor⟩ ⟨768, 38, 3, fun _ => 255⟩ r :=
  (banner_law_iff ⟨by decide, by decide, by decide, by decide, by decide, by decide, by decide, by decide⟩).mpr
    (by unfold Fits; decide)

/-- On a screen of 768 by 32767 pixels, the index of a pixel in the last line overflows. -/
theorem banner_overflow :
    Sizes ⟨32767, 768, 32767, .rgbResv8BitPerColor⟩ ⟨2, 32767, 3, fun _ => 0⟩ ∧
      ¬ ∃ r, drawBannerAndShrinkScreenTo768x543 ⟨32767, 768, 32767, .rgbResv8BitPerColor⟩
          ⟨2, 32767, 3, fun _ => 0⟩ = some r ∧
        Law ⟨32767, 768, 32767, .rgbResv8BitPerColor⟩ ⟨2, 32767, 3, fun _ => 0⟩ r := by
  have h : Sizes ⟨32767, 768, 32767, .rgbResv8BitPerColor⟩ ⟨2, 32767, 3, fun _ => 0⟩ :=
    ⟨by decide, by decide, by decide, by decide, by decide, by decide, by decide, by decide⟩
  refine ⟨h, ?_⟩
  rintro ⟨r, hr, hlaw⟩
  have hlt : (32767 : ℤ) * 32766 + 383 < 2 ^ 29 :=
    h.number_lt_of_law hr hlaw ⟨⟨by decide, by decide⟩, by decide, by decide⟩
  exact absurd hlt (by decide)

end Banner

end DuvuvurKernel
