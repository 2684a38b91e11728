import DuvuvurKernel.Graphics.FrameBuffer
import DuvuvurKernel.Lib.Copies
import DuvuvurKernel.Lib.Strips

/-!
# The bytes of a frame buffer

`frame_buffer.cpp` finds the bytes of a pixel from its position, and the next row from there. The number of pixels in a
scan line is a `uint32_t`, so the offset of a pixel is computed modulo 2^32, and the number of bytes in a scan line
becomes an `int`. `FrameBuffer::Copy` and `FrameBuffer::Move` copy a row with one call of `memcpy` each.

## The model

A place in a frame buffer is its offset from `frame_buffer`. The memory of a frame buffer is that of its scan lines. The
coordinates and the resolutions are values of `int`, and so are their sums. A call of `memcpy` copies its bytes one by
one, in which order does not matter as long as its ranges have no byte in common.
-/

namespace DuvuvurKernel

open Lib.Copies Lib.Strips

/-- `BytesPerPixel`. -/
def bytesPerPixel : PixelFormat → ℤ
  | .rgbResv8BitPerColor => 4
  | .bgrResv8BitPerColor => 4

/-- `FrameBufferConfig`, but for the pointer. -/
structure FrameBufferConfig where
  pixelsPerScanLine : ℕ
  horizontalResolution : ℕ
  verticalResolution : ℕ
  pixelFormat : PixelFormat
  deriving DecidableEq

/-- A call of `memcpy`. -/
structure Memcpy where
  dst : ℤ
  src : ℤ
  len : ℕ
  deriving DecidableEq

/-- The loop of `Copy` and `Move`: a row is copied, and the pointers go on to the next. -/
def rowCalls (dstBuf srcBuf dstStep srcStep : ℤ) (rows bytes : ℕ) : List Memcpy :=
  (List.range rows).map fun y : ℕ => ⟨dstBuf + y * dstStep, srcBuf + y * srcStep, bytes⟩

/-- The calls of the loop. The length of a row is computed as an `int`; it is not negative. -/
def memcpyRows (dstBuf srcBuf dstStep srcStep rows bytes : ℤ) : Option (List Memcpy) :=
  if rows ≤ 0 then some []
  else if 0 ≤ bytes ∧ bytes < 2 ^ 31 then some (rowCalls dstBuf srcBuf dstStep srcStep rows.toNat bytes.toNat)
  else none

/-- The bytes that a call copies, with the places in memory of the two buffers. -/
def Memcpy.cells {α : Type*} (into from' : ℤ → α) (call : Memcpy) : List (α × α) :=
  (List.range call.len).map fun j : ℕ => (into (call.dst + j), from' (call.src + j))

/-- A color, as it is stored. -/
def storedColor (format : PixelFormat) (bytes : ℤ → UInt8) (o : ℤ) : PixelColor :=
  match format with
  | .rgbResv8BitPerColor => ⟨bytes o, bytes (o + 1), bytes (o + 2)⟩
  | .bgrResv8BitPerColor => ⟨bytes (o + 2), bytes (o + 1), bytes o⟩

namespace FrameBufferConfig

variable (config : FrameBufferConfig)

/-- `FrameAddrAt`. -/
def frameAddrAt (pos : Vector2D) : ℤ :=
  bytesPerPixel config.pixelFormat * (config.pixelsPerScanLine * pos.y + pos.x) % 2 ^ 32

/-- `FrameBufferWriter::PixelAt`. -/
def pixelAt (pos : Vector2D) : ℤ := 4 * (config.pixelsPerScanLine * pos.y + pos.x) % 2 ^ 32

/-- `BytesPerScanLine`. -/
def bytesPerScanLine : ℤ := (bytesPerPixel config.pixelFormat * config.pixelsPerScanLine).bmod (2 ^ 32)

/-- `FrameBufferSize`. -/
def frameBufferSize : Vector2D := ⟨config.horizontalResolution, config.verticalResolution⟩

/-- The positions of the frame buffer. -/
def outline : Rectangle := ⟨⟨0, 0⟩, config.frameBufferSize⟩

/-- The bytes that a scan line takes. -/
def lineBytes : ℤ := 4 * config.pixelsPerScanLine

/-- Where the bytes of a pixel are. -/
def offset (pos : Vector2D) : ℤ := pos.y * config.lineBytes + 4 * pos.x

/-- The pixels that the bytes stand for. -/
def frameBuffer (bytes : ℤ → UInt8) : FrameBuffer where
  width := config.horizontalResolution
  height := config.verticalResolution
  pixelFormat := config.pixelFormat
  pixels := fun pos => storedColor config.pixelFormat bytes (config.offset pos)

end FrameBufferConfig

/-- A configuration with scan lines that end with the last pixel. -/
def plainConfig (width height : ℕ) : FrameBufferConfig := ⟨width, width, height, .rgbResv8BitPerColor⟩

/-- A rectangle lies in a frame buffer. -/
structure Rectangle.Within (r : Rectangle) (config : FrameBufferConfig) : Prop where
  left : 0 ≤ r.pos.x
  right : r.pos.x + r.size.x ≤ config.horizontalResolution
  top : 0 ≤ r.pos.y
  bottom : r.pos.y + r.size.y ≤ config.verticalResolution

variable {config : FrameBufferConfig} {p : Vector2D} {r : Rectangle}
    {dstBuf srcBuf dstStep srcStep dstStep' srcStep' x i : ℤ}
  {h n k j : ℕ}

/-! ### Addresses -/

theorem bytesPerPixel_eq (format : PixelFormat) : bytesPerPixel format = 4 := by
  cases format <;> rfl

theorem frameAddrAt_eq (config : FrameBufferConfig) (p : Vector2D) :
    config.frameAddrAt p = config.offset p % 2 ^ 32 := by
  rw [FrameBufferConfig.frameAddrAt, bytesPerPixel_eq, FrameBufferConfig.offset, FrameBufferConfig.lineBytes]
  ring_nf

theorem bytesPerScanLine_eq (config : FrameBufferConfig) :
    config.bytesPerScanLine = config.lineBytes.bmod (2 ^ 32) := by
  rw [FrameBufferConfig.bytesPerScanLine, bytesPerPixel_eq, FrameBufferConfig.lineBytes]

/-- An address is right if it fits in 32 bits. -/
theorem frameAddrAt_eq_iff (h : 0 ≤ config.offset p) :
    config.frameAddrAt p = config.offset p ↔ config.offset p < 2 ^ 32 := by
  rw [frameAddrAt_eq]
  omega

theorem frameAddrAt_le (h : 0 ≤ config.offset p) : config.frameAddrAt p ≤ config.offset p := by
  rw [frameAddrAt_eq]
  omega

theorem lineBytes_nonneg (config : FrameBufferConfig) : 0 ≤ config.lineBytes := by
  rw [FrameBufferConfig.lineBytes]
  omega

theorem offset_nonneg (config : FrameBufferConfig) (hx : 0 ≤ p.x) (hy : 0 ≤ p.y) : 0 ≤ config.offset p :=
  Int.add_nonneg (Int.mul_nonneg hy (lineBytes_nonneg config)) (Int.mul_nonneg (by decide) hx)

theorem offset_nonneg_of_contains (config : FrameBufferConfig) (hp : config.outline.Contains p) : 0 ≤ config.offset p :=
  offset_nonneg config hp.1 hp.2.2.1

theorem contains_outline_iff : config.outline.Contains p ↔
    (0 ≤ p.x ∧ p.x < config.horizontalResolution) ∧ 0 ≤ p.y ∧ p.y < config.verticalResolution := by
  simp only [FrameBufferConfig.outline, FrameBufferConfig.frameBufferSize, Rectangle.Contains, zero_add, and_assoc]

/-- Different pixels are apart. -/
theorem offset_apart {q : Vector2D} (hline : config.horizontalResolution ≤ config.pixelsPerScanLine)
    (hp : config.outline.Contains p) (hq : config.outline.Contains q) (hne : p ≠ q) :
    config.offset p + 4 ≤ config.offset q ∨ config.offset q + 4 ≤ config.offset p := by
  have hbytes : config.lineBytes = 4 * config.pixelsPerScanLine := rfl
  obtain ⟨hpx, -⟩ := contains_outline_iff.mp hp
  obtain ⟨hqx, -⟩ := contains_outline_iff.mp hq
  -- From one row on to the next, there is a whole scan line.
  have hrows : ∀ {y y' : ℤ}, y < y' → y * config.lineBytes + config.lineBytes ≤ y' * config.lineBytes := by
    intro y y' hlt
    have hmul : (y + 1) * config.lineBytes ≤ y' * config.lineBytes :=
      Int.mul_le_mul_of_nonneg_right hlt (lineBytes_nonneg config)
    rwa [add_mul, one_mul] at hmul
  rw [FrameBufferConfig.offset, FrameBufferConfig.offset]
  rcases lt_trichotomy p.y q.y with hlt | heq | hgt
  · have hrow := hrows hlt
    omega
  · have hx : p.x ≠ q.x := fun hx => hne (Vector2D.ext hx heq)
    rw [heq]
    omega
  · have hrow := hrows hgt
    omega

/-- A scan line is as long as it should be if its length is an `int`. -/
theorem bytesPerScanLine_eq_iff : config.bytesPerScanLine = config.lineBytes ↔ config.lineBytes < 2 ^ 31 := by
  have hnonneg := lineBytes_nonneg config
  rw [bytesPerScanLine_eq, Int.bmod_def]
  split <;> omega

/-- The rows of a rectangle are not longer than the scan lines. -/
theorem Rectangle.Within.width_le (hr : r.Within config)
    (hline : config.horizontalResolution ≤ config.pixelsPerScanLine) :
    4 * r.size.x ≤ config.lineBytes := by
  have hbytes : config.lineBytes = 4 * config.pixelsPerScanLine := rfl
  have hleft := hr.left
  have hright := hr.right
  omega

/-- A row of a rectangle is inside the buffer. -/
theorem row_inside {config : FrameBufferConfig} (hr : r.Within config) (hx : 0 ≤ r.size.x)
    (hline : config.horizontalResolution ≤ config.pixelsPerScanLine) (hk : k < r.size.y.toNat) :
    0 ≤ config.offset r.pos + k * config.lineBytes ∧
      config.offset r.pos + k * config.lineBytes + (4 * r.size.x).toNat ≤
          config.verticalResolution * config.lineBytes := by
  obtain ⟨hleft, hright, htop, hbottom⟩ := hr
  have hbytes : config.lineBytes = 4 * config.pixelsPerScanLine := rfl
  have hoffset : config.offset r.pos + k * config.lineBytes = (r.pos.y + k) * config.lineBytes + 4 * r.pos.x := by
    rw [FrameBufferConfig.offset]
    ring
  have hfirst : 0 ≤ (r.pos.y + k) * config.lineBytes := Int.mul_nonneg (by omega) (lineBytes_nonneg config)
  have hlast : (r.pos.y + k + 1) * config.lineBytes ≤ config.verticalResolution * config.lineBytes :=
    Int.mul_le_mul_of_nonneg_right (by omega) (lineBytes_nonneg config)
  rw [add_mul (r.pos.y + k)] at hlast
  omega

/-! ### Rows -/

theorem memcpyRows_eq_some {calls : List Memcpy} {rows bytes : ℤ} (hrows : 0 < rows) :
    memcpyRows dstBuf srcBuf dstStep srcStep rows bytes = some calls ↔
      (0 ≤ bytes ∧ bytes < 2 ^ 31) ∧ rowCalls dstBuf srcBuf dstStep srcStep rows.toNat bytes.toNat = calls := by
  rw [memcpyRows, if_neg (Int.not_le.mpr hrows)]
  split
  next hbytes => rw [Option.some.injEq, and_iff_right hbytes]
  next hbytes => exact iff_of_false (by simp) fun hall => hbytes hall.1

/-- Rows without bytes, or none. -/
theorem memcpyRows_of_empty {rows bytes : ℤ} (dstBuf srcBuf dstStep srcStep : ℤ) (hempty : rows ≤ 0 ∨ bytes = 0) :
    ∃ h, memcpyRows dstBuf srcBuf dstStep srcStep rows bytes = some (rowCalls dstBuf srcBuf dstStep srcStep h 0) := by
  rw [memcpyRows]
  split
  next => exact ⟨0, rfl⟩
  next hrows =>
    obtain rfl := hempty.resolve_left hrows
    exact ⟨_, if_pos (by decide)⟩

/-- If there is one row, there is no next one. -/
theorem rowCalls_congr (hdst : 1 < h → dstStep = dstStep') (hsrc : 1 < h → srcStep = srcStep') :
    rowCalls dstBuf srcBuf dstStep srcStep h n = rowCalls dstBuf srcBuf dstStep' srcStep' h n := by
  refine List.map_congr_left fun y hy => ?_
  rcases Nat.eq_zero_or_pos y with rfl | hpos
  · rw [Nat.cast_zero, zero_mul, zero_mul, zero_mul, zero_mul]
  · have hh : 1 < h := Nat.lt_of_le_of_lt hpos (List.mem_range.mp hy)
    rw [hdst hh, hsrc hh]

theorem mem_rowCalls {call : Memcpy} : call ∈ rowCalls dstBuf srcBuf dstStep srcStep h n ↔
    ∃ k < h, (⟨dstBuf + k * dstStep, srcBuf + k * srcStep, n⟩ : Memcpy) = call := by
  simp only [rowCalls, List.mem_map, List.mem_range]

/-- The bytes of all rows. -/
theorem cells_rowCalls {α : Type*} (into from' : ℤ → α) :
    (rowCalls dstBuf srcBuf dstStep srcStep h n).flatMap (Memcpy.cells into from') =
      strip h n fun k j => (into (cell dstBuf dstStep k j), from' (cell srcBuf srcStep k j)) := by
  rw [rowCalls, List.flatMap_map]
  rfl

/-! ### Pixels -/

theorem Rectangle.Within.contains (hr : r.Within config) (hp : r.Contains p) : config.outline.Contains p := by
  obtain ⟨hleft, hright, htop, hbottom⟩ := hr
  obtain ⟨hx, hx', hy, hy'⟩ := hp
  simp only [FrameBufferConfig.outline, FrameBufferConfig.frameBufferSize, Rectangle.Contains, zero_add]
  omega

/-- The byte of a pixel, from the beginning of a row of them on. -/
theorem cell_eq_offset (config : FrameBufferConfig) {q : Vector2D} (hk : (k : ℤ) = p.y - q.y)
    (hj : (j : ℤ) = 4 * (p.x - q.x) + i) :
    cell (config.offset q) config.lineBytes k j = config.offset p + i := by
  rw [cell, FrameBufferConfig.offset, FrameBufferConfig.offset, hk, hj]
  ring

/-- The bytes of the pixels of a rectangle. -/
theorem exists_cell (hp : r.Contains p) (hi : 0 ≤ i ∧ i < 4) :
    ∃ k < r.size.y.toNat, ∃ j < (4 * r.size.x).toNat, (k : ℤ) = p.y - r.pos.y ∧ (j : ℤ) = 4 * (p.x - r.pos.x) + i := by
  obtain ⟨hx, hx', hy, hy'⟩ := hp
  exact ⟨(p.y - r.pos.y).toNat, by omega, (4 * (p.x - r.pos.x) + i).toNat, by omega, by omega, by omega⟩

theorem exists_pixel (hk : k < r.size.y.toNat) (hj : j < (4 * r.size.x).toNat) :
    ∃ p i, r.Contains p ∧ (0 ≤ i ∧ i < 4) ∧ (k : ℤ) = p.y - r.pos.y ∧ (j : ℤ) = 4 * (p.x - r.pos.x) + i := by
  refine ⟨⟨r.pos.x + j / 4, r.pos.y + k⟩, j % 4, ⟨?_, ?_, ?_, ?_⟩, by omega, ?_, ?_⟩ <;> dsimp only <;> omega

/-- Other pixels have other bytes. -/
theorem contains_of_cell (hr : r.Within config) (hp : config.outline.Contains p)
    (hline : config.horizontalResolution ≤ config.pixelsPerScanLine) (hi : 0 ≤ i ∧ i < 4) (hk : k < r.size.y.toNat)
    (hj : j < (4 * r.size.x).toNat) (heq : cell (config.offset r.pos) config.lineBytes k j = config.offset p + i) :
    r.Contains p := by
  obtain ⟨q, i', ⟨hx, hx', hy, hy'⟩, hi', hk', hj'⟩ := exists_pixel hk hj
  obtain ⟨hleft, hright, -, -⟩ := hr
  obtain ⟨hpx, hpx', -, -⟩ := hp
  simp only [FrameBufferConfig.outline, FrameBufferConfig.frameBufferSize, zero_add] at hpx hpx'
  have hbytes : config.lineBytes = 4 * config.pixelsPerScanLine := rfl
  rw [cell_eq_offset config hk' hj', FrameBufferConfig.offset, FrameBufferConfig.offset, add_assoc, add_assoc,
    mul_add_inj (by omega) (by omega)] at heq
  exact ⟨by omega, by omega, by omega, by omega⟩

theorem storedColor_congr {format : PixelFormat} {bytes bytes' : ℤ → UInt8} {o o' : ℤ}
    (h : ∀ i, 0 ≤ i ∧ i < 4 → bytes (o + i) = bytes' (o' + i)) :
    storedColor format bytes o = storedColor format bytes' o' := by
  have h0 := h 0 (by decide)
  rw [add_zero, add_zero] at h0
  cases format <;> simp only [storedColor, h0, h 1 (by decide), h 2 (by decide)]

end DuvuvurKernel
