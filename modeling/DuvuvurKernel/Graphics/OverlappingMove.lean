import DuvuvurKernel.Graphics.FrameBytes
import DuvuvurKernel.Lib.Moves

/-!
# Moving within a frame buffer

`FrameBuffer::Move` copies a rectangle within its buffer, with which the terminals scroll. It begins with the first row
to move up, and with the last one otherwise, so that no row is overwritten before it is copied. To move sideways by less
than its width, it would have to copy a row onto itself; `memcpy` is not defined for this.

**Result** (`movesRectangle_iff`): exactly when `Move` moves the rectangle, and nothing else.
-/

namespace DuvuvurKernel

open Lib.Copies Lib.Moves Lib.Strips

/-- `FrameBuffer::Move`: its calls of `memcpy`. -/
def FrameBufferConfig.moveCalls (config : FrameBufferConfig) (dstPos : Vector2D) (src : Rectangle) :
    Option (List Memcpy) :=
  let rowBytes := bytesPerPixel config.pixelFormat * src.size.x
  let bytesPerScanLine := config.bytesPerScanLine
  if dstPos.y < src.pos.y then
    memcpyRows (config.frameAddrAt dstPos) (config.frameAddrAt src.pos)
      bytesPerScanLine bytesPerScanLine src.size.y rowBytes
  else
    memcpyRows (config.frameAddrAt (dstPos + ⟨0, src.size.y - 1⟩)) (config.frameAddrAt (src.pos + ⟨0, src.size.y - 1⟩))
      (-bytesPerScanLine) (-bytesPerScanLine) src.size.y rowBytes

/-- The ranges of a call have no byte in common. -/
def Memcpy.Disjoint (call : Memcpy) : Prop := (call.len : ℤ) ≤ |call.dst - call.src|

/-- The bytes of the buffer after the calls. -/
def afterMove (bytes : ℤ → UInt8) (calls : List Memcpy) : ℤ → UInt8 := copies bytes (calls.flatMap (Memcpy.cells id id))

/-- `Move` moves the rectangle and nothing else, whatever the buffer holds. -/
def FrameBufferConfig.MovesRectangle (config : FrameBufferConfig) (dstPos : Vector2D) (src : Rectangle) : Prop :=
  ∃ calls, config.moveCalls dstPos src = some calls ∧ (∀ call ∈ calls, call.Disjoint) ∧
    ∀ (bytes : ℤ → UInt8) (p : Vector2D), config.outline.Contains p → ∀ i, 0 ≤ i ∧ i < 4 →
      afterMove bytes calls (config.offset p + i) =
        if (⟨dstPos, src.size⟩ : Rectangle).Contains p then bytes (config.offset (p - (dstPos - src.pos)) + i)
        else bytes (config.offset p + i)

variable {config : FrameBufferConfig} {dstPos p : Vector2D} {src : Rectangle} {start source step : ℤ}

/-- The bytes of a rectangle are as far from those of another one as the first bytes are. -/
theorem offset_sub (config : FrameBufferConfig) (p a b : Vector2D) :
    config.offset (p - (a - b)) = config.offset p - (config.offset a - config.offset b) := by
  simp only [FrameBufferConfig.offset, Vector2D.sub_x, Vector2D.sub_y]
  ring

instance nontrivial_uint8 : Nontrivial UInt8 := ⟨0, 1, by decide⟩

/-- The calls copy the rows as a strip is moved. -/
theorem afterMove_rowCalls (bytes : ℤ → UInt8) (start source step : ℤ) (h n : ℕ) :
    afterMove bytes (rowCalls start source step step h n) = copies bytes (moves start source step h n) := by
  rw [afterMove, cells_rowCalls]
  rfl

/-- All rows are moved by as much. -/
theorem disjoint_rowCalls {h n : ℕ} (hh : 0 < h) :
    (∀ call ∈ rowCalls start source step step h n, call.Disjoint) ↔ (n : ℤ) ≤ |start - source| := by
  constructor
  · intro hall
    have hfirst := hall _ (mem_rowCalls.mpr ⟨0, hh, rfl⟩)
    rwa [Memcpy.Disjoint, add_sub_add_right_eq_sub] at hfirst
  · intro hle call hcall
    obtain ⟨k, -, rfl⟩ := mem_rowCalls.mp hcall
    rwa [Memcpy.Disjoint, add_sub_add_right_eq_sub]

/-- Rectangles in a buffer begin with the same byte only if they begin with the same pixel. -/
theorem offset_inj {size : Vector2D} {a b : Vector2D} (ha : (⟨a, size⟩ : Rectangle).Within config)
    (hb : (⟨b, size⟩ : Rectangle).Within config) (hline : config.horizontalResolution ≤ config.pixelsPerScanLine)
    (hx : 0 < size.x) (heq : config.offset a = config.offset b) : a = b := by
  have hbytes : config.lineBytes = 4 * config.pixelsPerScanLine := rfl
  have hrow : ∀ {c : Vector2D}, (⟨c, size⟩ : Rectangle).Within config → 0 ≤ 4 * c.x ∧ 4 * c.x < config.lineBytes := by
    rintro c ⟨hleft, hright, -, -⟩
    dsimp only at hleft hright
    omega
  obtain ⟨hy, hx⟩ := (mul_add_inj (hrow ha) (hrow hb)).mp heq
  exact Vector2D.ext (by omega) hy

/-- The pixels of a rectangle are moved if its cells are. -/
theorem pixels_moved_iff (config : FrameBufferConfig) (dstPos : Vector2D) (src : Rectangle) (bytes bytes' : ℤ → UInt8) :
    (∀ p, (⟨dstPos, src.size⟩ : Rectangle).Contains p → ∀ i, 0 ≤ i ∧ i < 4 →
        bytes' (config.offset p + i) = bytes (config.offset (p - (dstPos - src.pos)) + i)) ↔
      ∀ k < src.size.y.toNat, ∀ j < (4 * src.size.x).toNat, bytes' (cell (config.offset dstPos) config.lineBytes k j) =
        bytes (cell (config.offset dstPos) config.lineBytes k j - (config.offset dstPos - config.offset src.pos)) := by
  have hsource : ∀ p i, config.offset (p - (dstPos - src.pos)) + i =
      config.offset p + i - (config.offset dstPos - config.offset src.pos) := by
    intro p i
    rw [offset_sub]
    ring
  simp only [hsource]
  constructor
  · intro hall k hk j hj
    obtain ⟨p, i, hp, hi, hk', hj'⟩ := exists_pixel (r := ⟨dstPos, src.size⟩) hk hj
    rw [cell_eq_offset config hk' hj']
    exact hall p hp i hi
  · intro hall p hp i hi
    obtain ⟨k, hk, j, hj, hk', hj'⟩ := exists_cell hp hi
    rw [← cell_eq_offset config hk' hj']
    exact hall k hk j hj

/-- The calls move the rectangle if their addresses are right, and no row is overwritten before it is copied. -/
theorem movesRectangle_iff_rows (hsrc : src.Within config) (hdst : (⟨dstPos, src.size⟩ : Rectangle).Within config)
    (hline : config.horizontalResolution ≤ config.pixelsPerScanLine) (hx : 0 < src.size.x) (hy : 0 < src.size.y)
    (hcalls : config.moveCalls dstPos src =
      memcpyRows start source step step src.size.y (bytesPerPixel config.pixelFormat * src.size.x))
    (hsame : dstPos = src.pos → start = source) :
    config.MovesRectangle dstPos src ↔ 4 * src.size.x < 2 ^ 31 ∧
      source = start - (config.offset dstPos - config.offset src.pos) ∧
      InOrder (config.offset dstPos) config.lineBytes src.size.y.toNat start step ∧
      ∀ e < src.size.y.toNat, 4 * src.size.x ≤ |e * step - (config.offset dstPos - config.offset src.pos)| := by
  have hn : ((4 * src.size.x).toNat : ℤ) = 4 * src.size.x := by omega
  have hh : 0 < src.size.y.toNat := by omega
  have hrow : ((4 * src.size.x).toNat : ℤ) ≤ config.lineBytes := hn.trans_le (hsrc.width_le hline)
  rw [FrameBufferConfig.MovesRectangle, hcalls, bytesPerPixel_eq]
  simp only [memcpyRows_eq_some hy]
  constructor
  · rintro ⟨calls, ⟨⟨-, hlen⟩, rfl⟩, hdisjoint, hpixels⟩
    rw [disjoint_rowCalls hh, hn] at hdisjoint
    have hshift : config.offset dstPos - config.offset src.pos ≠ 0 := by
      intro hzero
      rw [hsame (offset_inj hdst hsrc hline hx (Int.sub_eq_zero.mp hzero)), sub_self, abs_zero] at hdisjoint
      omega
    obtain ⟨hsource, ho, hfresh⟩ := (moves_iff hh (by omega) hrow hshift).mp fun m =>
      (pixels_moved_iff config dstPos src m _).mp fun p hp i hi => by
        rw [← afterMove_rowCalls, hpixels m p (hdst.contains hp) i hi, if_pos hp]
    refine ⟨hlen, hsource, ho, ?_⟩
    rw [hsource, sub_sub_cancel] at hdisjoint
    rwa [fresh_moves hsource (hn ▸ hdisjoint), hn] at hfresh
  · rintro ⟨hlen, hsource, ho, hrows⟩
    have hfar : 4 * src.size.x ≤ |config.offset dstPos - config.offset src.pos| := by
      have hfirst := hrows 0 hh
      rwa [Nat.cast_zero, zero_mul, zero_sub, abs_neg] at hfirst
    have hshift : config.offset dstPos - config.offset src.pos ≠ 0 := by
      intro hzero
      rw [hzero, abs_zero] at hfar
      omega
    have hmoved := (moves_iff (β := UInt8) hh (by omega) hrow hshift).mpr
      ⟨hsource, ho, (fresh_moves hsource (hn ▸ hfar)).mpr (hn ▸ hrows)⟩
    refine ⟨_, ⟨⟨by omega, hlen⟩, rfl⟩, ?_, fun bytes p hp i hi => ?_⟩
    · rwa [disjoint_rowCalls hh, hn, hsource, sub_sub_cancel]
    · rw [afterMove_rowCalls]
      split
      next hcontains => exact (pixels_moved_iff config dstPos src bytes _).mpr (hmoved bytes) p hcontains i hi
      next hcontains =>
        by_contra hne
        obtain ⟨k, hk, j, hj, heq⟩ := ho.exists_cell_iff.mp (exists_of_copies_ne hne)
        exact hcontains (contains_of_cell hdst hp hline hi hk hj heq)

/-! ### What `Move` moves -/

/-- Sideways, in bytes and in pixels. -/
theorem four_mul_le_abs_iff {w d : ℤ} : 4 * w ≤ |4 * d| ↔ w ≤ |d| := by
  rw [le_abs, le_abs]
  omega

/-- The row that `Move` begins with. -/
def firstRow (dstPos : Vector2D) (src : Rectangle) : Vector2D := ⟨0, if dstPos.y < src.pos.y then 0 else src.size.y - 1⟩

/-- The row that `Move` begins with is below 2^32 where it comes from and where it goes to, and if there is another one,
a scan line has less than 2^31 bytes. -/
def FrameBufferConfig.RowsFit (config : FrameBufferConfig) (dstPos : Vector2D) (src : Rectangle) : Prop :=
  (config.offset (dstPos + firstRow dstPos src) < 2 ^ 32 ∧ config.offset (src.pos + firstRow dstPos src) < 2 ^ 32) ∧
    (1 < src.size.y → config.lineBytes < 2 ^ 31)

/-- A scan line has 2^31 bytes, so that `Move` goes down instead of up; the last row of an odd number is then found
where the first one is. -/
def FrameBufferConfig.RowsTurn (config : FrameBufferConfig) (dstPos : Vector2D) (src : Rectangle) : Prop :=
  (config.lineBytes = 2 ^ 31 ∧ 1 < src.size.y ∧ src.size.y % 2 = 1) ∧ src.pos.y ≤ dstPos.y ∧
    (config.offset dstPos < 2 ^ 32 ∧ config.offset src.pos < 2 ^ 32) ∧ src.size.x ≤ |dstPos.x - src.pos.x|

/-- The rectangle is empty, or `Move` finds its rows, and need not copy one onto itself. -/
def FrameBufferConfig.MoveFits (config : FrameBufferConfig) (dstPos : Vector2D) (src : Rectangle) : Prop :=
  (src.size.y ≤ 0 ∨ src.size.x = 0) ∨
    ((0 < src.size.x ∧ 4 * src.size.x < 2 ^ 31) ∧
      ((config.RowsFit dstPos src ∧ (dstPos.y = src.pos.y → src.size.x ≤ |dstPos.x - src.pos.x|)) ∨
        config.RowsTurn dstPos src))

theorem offset_add_row (config : FrameBufferConfig) (p : Vector2D) (y : ℤ) :
    config.offset (p + ⟨0, y⟩) = config.offset p + y * config.lineBytes := by
  simp only [FrameBufferConfig.offset, Vector2D.add_x, Vector2D.add_y, add_zero]
  ring

/-- How far a rectangle is moved, in rows and pixels. -/
theorem offset_sub_offset (config : FrameBufferConfig) (p q : Vector2D) :
    config.offset p - config.offset q = (p.y - q.y) * config.lineBytes + 4 * (p.x - q.x) := by
  rw [FrameBufferConfig.offset, FrameBufferConfig.offset]
  ring

/-- Both rectangles fit in a scan line. -/
theorem shift_add_width_le (hsrc : src.Within config) (hdst : (⟨dstPos, src.size⟩ : Rectangle).Within config)
    (hline : config.horizontalResolution ≤ config.pixelsPerScanLine) :
    |4 * (dstPos.x - src.pos.x)| + 4 * src.size.x ≤ config.lineBytes := by
  have hbytes : config.lineBytes = 4 * config.pixelsPerScanLine := rfl
  obtain ⟨hleft, hright, -, -⟩ := hsrc
  obtain ⟨hleft', hright', -, -⟩ := hdst
  dsimp only at hleft' hright'
  exact le_sub_iff_add_le.mp (abs_le.mpr ⟨by omega, by omega⟩)

/-- Upwards, `Move` begins with the first row. -/
theorem movesRectangle_up_iff (hsrc : src.Within config) (hdst : (⟨dstPos, src.size⟩ : Rectangle).Within config)
    (hline : config.horizontalResolution ≤ config.pixelsPerScanLine) (hx : 0 < src.size.x) (hy : 0 < src.size.y)
    (hup : dstPos.y < src.pos.y) :
    config.MovesRectangle dstPos src ↔ 4 * src.size.x < 2 ^ 31 ∧ config.RowsFit dstPos src := by
  have hcalls : config.moveCalls dstPos src = memcpyRows (config.frameAddrAt dstPos) (config.frameAddrAt src.pos)
      config.bytesPerScanLine config.bytesPerScanLine src.size.y (bytesPerPixel config.pixelFormat * src.size.x) :=
        if_pos hup
  have hfit := shift_add_width_le hsrc hdst hline
  have hpos : 0 < config.lineBytes := Int.lt_of_lt_of_le (by omega) (hsrc.width_le hline)
  have hrow : firstRow dstPos src = ⟨0, 0⟩ := by rw [firstRow, if_pos hup]
  have haddr := frameAddrAt_eq_iff (offset_nonneg config hdst.left hdst.top)
  have haddr' := frameAddrAt_eq_iff (offset_nonneg config hsrc.left hsrc.top)
  rw [movesRectangle_iff_rows hsrc hdst hline hx hy hcalls (congrArg _), FrameBufferConfig.RowsFit, hrow,
    offset_add_row, offset_add_row, zero_mul, add_zero, add_zero]
  constructor
  · rintro ⟨hlen, hsource, ho, -⟩
    obtain ⟨hstart, hstep⟩ := ho.of_le (by omega) hpos (frameAddrAt_le (offset_nonneg config hdst.left hdst.top))
    rw [hstart, sub_sub_cancel] at hsource
    exact ⟨hlen, ⟨haddr.mp hstart, haddr'.mp hsource⟩, fun h1 => bytesPerScanLine_eq_iff.mp (hstep (by omega))⟩
  · rintro ⟨hlen, ⟨hoffset, hoffset'⟩, hlines⟩
    have hstep : 1 < src.size.y.toNat → config.bytesPerScanLine = config.lineBytes := fun h1 =>
      bytesPerScanLine_eq_iff.mpr (hlines (by omega))
    rw [haddr.mpr hoffset, haddr'.mpr hoffset', sub_sub_cancel, offset_sub_offset,
      rows_apart_iff hfit (by omega) (fun h1 => (by rw [hstep h1, one_mul] : _ = 1 * config.lineBytes))]
    refine ⟨hlen, rfl, .inl ⟨rfl, hstep⟩, ?_⟩
    rintro ⟨e, -, he⟩
    omega

/-- Where a scan line has 2^31 bytes, the last row is found where the first one is if the number of rows is odd. -/
theorem frameAddrAt_last_iff {y : ℤ} (hbytes : config.lineBytes = 2 ^ 31) (hp : 0 ≤ config.offset p) :
    config.frameAddrAt (p + ⟨0, y - 1⟩) = config.offset p ↔ y % 2 = 1 ∧ config.offset p < 2 ^ 32 := by
  rw [frameAddrAt_eq, offset_add_row, hbytes]
  omega

/-- The rows go up from the last one. -/
theorem rowsFit_iff (hx : 0 ≤ src.size.x) (hy : 0 < src.size.y)
    (hfit : |4 * (dstPos.x - src.pos.x)| + 4 * src.size.x ≤ config.lineBytes) (hoffset : 0 ≤ config.offset dstPos)
    (hoffset' : 0 ≤ config.offset src.pos) (hdown : ¬ dstPos.y < src.pos.y) :
    (config.frameAddrAt (src.pos + ⟨0, src.size.y - 1⟩) =
        config.frameAddrAt (dstPos + ⟨0, src.size.y - 1⟩) - (config.offset dstPos - config.offset src.pos) ∧
      (config.frameAddrAt (dstPos + ⟨0, src.size.y - 1⟩) = config.offset dstPos + (src.size.y - 1) * config.lineBytes ∧
        (1 < src.size.y.toNat → -config.bytesPerScanLine = -config.lineBytes)) ∧
      ∀ e < src.size.y.toNat, 4 * src.size.x ≤
        |e * -config.bytesPerScanLine - (config.offset dstPos - config.offset src.pos)|) ↔
    config.RowsFit dstPos src ∧ (dstPos.y = src.pos.y → src.size.x ≤ |dstPos.x - src.pos.x|) := by
  have hrow : firstRow dstPos src = ⟨0, src.size.y - 1⟩ := by rw [firstRow, if_neg hdown]
  have hmul : 0 ≤ (src.size.y - 1) * config.lineBytes := Int.mul_nonneg (by omega) (lineBytes_nonneg config)
  have haddr : ∀ {p : Vector2D}, 0 ≤ config.offset p →
      (config.frameAddrAt (p + ⟨0, src.size.y - 1⟩) = config.offset p + (src.size.y - 1) * config.lineBytes ↔
        config.offset (p + ⟨0, src.size.y - 1⟩) < 2 ^ 32) := by
    intro p hp
    rw [← offset_add_row]
    exact frameAddrAt_eq_iff (by rw [offset_add_row]; omega)
  have hsteps : (1 < src.size.y.toNat → -config.bytesPerScanLine = -config.lineBytes) ↔
      (1 < src.size.y → config.lineBytes < 2 ^ 31) := by
    rw [neg_inj, bytesPerScanLine_eq_iff, Int.lt_toNat, Nat.cast_one]
  rw [FrameBufferConfig.RowsFit, hrow, ← haddr hoffset, ← haddr hoffset', hsteps, offset_sub_offset]
  -- Only the row that is moved beside itself can meet itself.
  have hapart : (1 < src.size.y → config.lineBytes < 2 ^ 31) →
      ((∀ e < src.size.y.toNat, 4 * src.size.x ≤
          |e * -config.bytesPerScanLine - ((dstPos.y - src.pos.y) * config.lineBytes + 4 * (dstPos.x - src.pos.x))|) ↔
        (dstPos.y = src.pos.y → src.size.x ≤ |dstPos.x - src.pos.x|)) := by
    intro hlines
    rw [rows_apart_iff hfit (by omega) fun h1 => (hsteps.mpr hlines h1).trans (neg_one_mul _).symm, four_mul_le_abs_iff]
    refine imp_congr_left ⟨fun ⟨e, he, heq⟩ => by omega, fun heq => ⟨0, by omega, by rw [heq]; simp⟩⟩
  constructor
  · rintro ⟨hsource, ⟨hstart, hlines⟩, hall⟩
    refine ⟨⟨⟨hstart, ?_⟩, hlines⟩, (hapart hlines).mp hall⟩
    rw [hsource, hstart, ← offset_sub_offset]
    ring
  · rintro ⟨⟨⟨hstart, hsource⟩, hlines⟩, hbeside⟩
    refine ⟨?_, ⟨hstart, hlines⟩, (hapart hlines).mpr hbeside⟩
    rw [hsource, hstart, ← offset_sub_offset]
    ring

theorem neg_bytesPerScanLine_eq_iff (hpos : 0 < config.lineBytes) :
    -config.bytesPerScanLine = config.lineBytes ↔ config.lineBytes = 2 ^ 31 := by
  rw [bytesPerScanLine_eq, Int.bmod_def]
  split <;> omega

/-- The rows go down from the first one. -/
theorem rowsTurn_iff (hx : 0 < src.size.x) (hfit : |4 * (dstPos.x - src.pos.x)| + 4 * src.size.x ≤ config.lineBytes)
    (hdst : 0 ≤ dstPos.x ∧ 0 ≤ dstPos.y) (hsrc : 0 ≤ src.pos.x ∧ 0 ≤ src.pos.y) (hdown : ¬ dstPos.y < src.pos.y) :
    (config.frameAddrAt (src.pos + ⟨0, src.size.y - 1⟩) =
        config.frameAddrAt (dstPos + ⟨0, src.size.y - 1⟩) - (config.offset dstPos - config.offset src.pos) ∧
      (1 < src.size.y.toNat ∧ config.frameAddrAt (dstPos + ⟨0, src.size.y - 1⟩) = config.offset dstPos ∧
        -config.bytesPerScanLine = config.lineBytes) ∧
      ∀ e < src.size.y.toNat, 4 * src.size.x ≤
        |e * -config.bytesPerScanLine - (config.offset dstPos - config.offset src.pos)|) ↔
    config.RowsTurn dstPos src := by
  have hpos : 0 < config.lineBytes := by
    have := abs_nonneg (4 * (dstPos.x - src.pos.x))
    omega
  rw [FrameBufferConfig.RowsTurn, neg_bytesPerScanLine_eq_iff hpos, Int.lt_toNat, Nat.cast_one, offset_sub_offset]
  -- The rows begin close enough for one of them to be moved beside another.
  have hbeside : config.lineBytes = 2 ^ 31 → config.offset dstPos < 2 ^ 32 → 1 < src.size.y ∧ src.size.y % 2 = 1 →
      ((∀ e < src.size.y.toNat, 4 * src.size.x ≤
          |e * -config.bytesPerScanLine - ((dstPos.y - src.pos.y) * config.lineBytes + 4 * (dstPos.x - src.pos.x))|) ↔
        src.size.x ≤ |dstPos.x - src.pos.x|) := by
    intro hbytes hlow hy
    rw [rows_apart_iff hfit (by omega) fun _ => ((neg_bytesPerScanLine_eq_iff hpos).mpr hbytes).trans (one_mul _).symm,
      four_mul_le_abs_iff]
    rw [FrameBufferConfig.offset, hbytes] at hlow
    exact ⟨fun hall => hall ⟨(dstPos.y - src.pos.y).toNat, by omega, by omega⟩, fun hle _ => hle⟩
  have haddr := fun {y : ℤ} (hbytes : config.lineBytes = 2 ^ 31) =>
    frameAddrAt_last_iff (y := y) hbytes (offset_nonneg config hdst.1 hdst.2)
  have haddr' := fun {y : ℤ} (hbytes : config.lineBytes = 2 ^ 31) =>
    frameAddrAt_last_iff (y := y) hbytes (offset_nonneg config hsrc.1 hsrc.2)
  constructor
  · rintro ⟨hsource, ⟨h1, hstart, hbytes⟩, hall⟩
    rw [hstart, ← offset_sub_offset, sub_sub_cancel, haddr' hbytes] at hsource
    obtain ⟨hodd, hlow⟩ := (haddr hbytes).mp hstart
    exact ⟨⟨hbytes, h1, hodd⟩, Int.not_lt.mp hdown, ⟨hlow, hsource.2⟩, (hbeside hbytes hlow ⟨h1, hodd⟩).mp hall⟩
  · rintro ⟨⟨hbytes, hy⟩, -, ⟨hlow, hlow'⟩, hle⟩
    refine ⟨?_, ⟨hy.1, (haddr hbytes).mpr ⟨hy.2, hlow⟩, hbytes⟩, (hbeside hbytes hlow hy).mpr hle⟩
    rw [(haddr hbytes).mpr ⟨hy.2, hlow⟩, (haddr' hbytes).mpr ⟨hy.2, hlow'⟩, ← offset_sub_offset, sub_sub_cancel]

/-- The other way, `Move` begins with the last row. -/
theorem movesRectangle_down_iff (hsrc : src.Within config) (hdst : (⟨dstPos, src.size⟩ : Rectangle).Within config)
    (hline : config.horizontalResolution ≤ config.pixelsPerScanLine) (hx : 0 < src.size.x) (hy : 0 < src.size.y)
    (hdown : ¬ dstPos.y < src.pos.y) :
    config.MovesRectangle dstPos src ↔ 4 * src.size.x < 2 ^ 31 ∧
      ((config.RowsFit dstPos src ∧ (dstPos.y = src.pos.y → src.size.x ≤ |dstPos.x - src.pos.x|)) ∨
          config.RowsTurn dstPos src) := by
  have hcalls : config.moveCalls dstPos src = memcpyRows (config.frameAddrAt (dstPos + ⟨0, src.size.y - 1⟩))
      (config.frameAddrAt (src.pos + ⟨0, src.size.y - 1⟩)) (-config.bytesPerScanLine) (-config.bytesPerScanLine)
      src.size.y (bytesPerPixel config.pixelFormat * src.size.x) := if_neg hdown
  have hrows : (src.size.y.toNat : ℤ) = src.size.y := by omega
  have hfit := shift_add_width_le hsrc hdst hline
  rw [movesRectangle_iff_rows hsrc hdst hline hx hy hcalls (fun heq => by rw [heq]), inOrder_iff (by omega), hrows,
    or_and_right, and_or_left, rowsFit_iff hx.le hy hfit (offset_nonneg config hdst.left hdst.top)
      (offset_nonneg config hsrc.left hsrc.top) hdown,
    rowsTurn_iff hx hfit ⟨hdst.left, hdst.top⟩ ⟨hsrc.left, hsrc.top⟩ hdown]

/-- A rectangle with pixels, either way. -/
theorem movesRectangle_iff_of_pos (hsrc : src.Within config) (hdst : (⟨dstPos, src.size⟩ : Rectangle).Within config)
    (hline : config.horizontalResolution ≤ config.pixelsPerScanLine) (hx : 0 < src.size.x) (hy : 0 < src.size.y) :
    config.MovesRectangle dstPos src ↔ 4 * src.size.x < 2 ^ 31 ∧
      ((config.RowsFit dstPos src ∧ (dstPos.y = src.pos.y → src.size.x ≤ |dstPos.x - src.pos.x|)) ∨
          config.RowsTurn dstPos src) := by
  by_cases hup : dstPos.y < src.pos.y
  · rw [movesRectangle_up_iff hsrc hdst hline hx hy hup]
    refine and_congr_right fun _ => ⟨fun hfit => .inl ⟨hfit, fun heq => absurd heq (ne_of_lt hup)⟩, ?_⟩
    rintro (⟨hfit, -⟩ | ⟨-, hle, -⟩)
    · exact hfit
    · exact absurd hup (Int.not_lt.mpr hle)
  · exact movesRectangle_down_iff hsrc hdst hline hx hy hup

theorem exists_moveCalls_eq (config : FrameBufferConfig) (dstPos : Vector2D) (src : Rectangle) :
    ∃ start source step, config.moveCalls dstPos src =
      memcpyRows start source step step src.size.y (bytesPerPixel config.pixelFormat * src.size.x) := by
  rw [FrameBufferConfig.moveCalls]
  split
  · exact ⟨_, _, _, rfl⟩
  · exact ⟨_, _, _, rfl⟩

/-- Rows without bytes, or none, leave everything as it is. -/
theorem movesRectangle_of_empty (hempty : src.size.y ≤ 0 ∨ src.size.x = 0) : config.MovesRectangle dstPos src := by
  obtain ⟨start, source, step, hcalls⟩ := exists_moveCalls_eq config dstPos src
  obtain ⟨h, hrows⟩ := memcpyRows_of_empty start source step step (hempty.imp_right fun hx => (by rw [hx, mul_zero] :
    bytesPerPixel config.pixelFormat * src.size.x = 0))
  refine ⟨_, hcalls.trans hrows, fun call hcall => ?_, fun bytes p _ i _ => ?_⟩
  · obtain ⟨k, -, rfl⟩ := mem_rowCalls.mp hcall
    exact abs_nonneg _
  · have hempty : ¬ (⟨dstPos, src.size⟩ : Rectangle).Contains p := by
      rw [Rectangle.Contains]
      dsimp only
      omega
    rw [if_neg hempty, afterMove_rowCalls]
    by_contra hne
    obtain ⟨k, -, j, hj, -⟩ := exists_of_copies_ne hne
    exact absurd hj (Nat.not_lt_zero j)

/-- **`Move` moves the rectangle**, and nothing else, with calls of `memcpy` whose ranges are disjoint, if and only if
the rectangle is empty, or its rows are found and none is copied onto itself. -/
theorem movesRectangle_iff (hsrc : src.Within config) (hdst : (⟨dstPos, src.size⟩ : Rectangle).Within config)
    (hline : config.horizontalResolution ≤ config.pixelsPerScanLine) :
    config.MovesRectangle dstPos src ↔ config.MoveFits dstPos src := by
  rw [FrameBufferConfig.MoveFits]
  by_cases hempty : src.size.y ≤ 0 ∨ src.size.x = 0
  · exact iff_of_true (movesRectangle_of_empty hempty) (.inl hempty)
  · rw [or_iff_right hempty]
    obtain ⟨hy, hx⟩ := not_or.mp hempty
    rcases Int.lt_or_gt_of_ne hx with hneg | hx
    · refine iff_of_false (fun ⟨calls, hcalls, _⟩ => ?_) fun hfits => Int.lt_asymm hneg hfits.1.1
      obtain ⟨start, source, step, hrows⟩ := exists_moveCalls_eq config dstPos src
      rw [hrows, memcpyRows_eq_some (Int.not_le.mp hy), bytesPerPixel_eq] at hcalls
      omega
    · rw [and_iff_right hx]
      exact movesRectangle_iff_of_pos hsrc hdst hline hx (Int.not_le.mp hy)

/-- A terminal scrolls up by a line. -/
theorem movesRectangle_scroll : (plainConfig 8 4).MovesRectangle ⟨0, 0⟩ ⟨⟨0, 1⟩, ⟨8, 3⟩⟩ :=
  (movesRectangle_iff ⟨by decide, by decide, by decide, by decide⟩
    ⟨by decide, by decide, by decide, by decide⟩ (by decide)).mpr
    (.inr ⟨by decide, .inl ⟨⟨by decide, by decide⟩, fun heq => absurd heq (by decide)⟩⟩)

/-- Two pixels are to be moved to the right by one: the ranges of the only call have a pixel in common. -/
theorem not_movesRectangle_sideways : ¬ (plainConfig 4 4).MovesRectangle ⟨1, 0⟩ ⟨⟨0, 0⟩, ⟨2, 1⟩⟩ := by
  have hcalls : (plainConfig 4 4).moveCalls ⟨1, 0⟩ ⟨⟨0, 0⟩, ⟨2, 1⟩⟩ = some [⟨4, 0, 8⟩] := by decide
  rintro ⟨calls, hsome, hdisjoint, -⟩
  obtain rfl := Option.some.inj (hcalls.symm.trans hsome)
  have hfirst := hdisjoint _ (List.mem_singleton_self _)
  rw [Memcpy.Disjoint] at hfirst
  exact absurd hfirst (by decide)

/-- The last byte of the row that `Move` begins with is below the end of the buffer. -/
theorem offset_firstRow_lt {pos : Vector2D} (hpos : (⟨pos, src.size⟩ : Rectangle).Within config)
    (hline : config.horizontalResolution ≤ config.pixelsPerScanLine) (hx : 0 ≤ src.size.x) (hy : 0 < src.size.y)
    (hsmall : config.verticalResolution * config.lineBytes < 2 ^ 31) :
    config.offset (pos + firstRow dstPos src) + (4 * src.size.x).toNat < 2 ^ 31 := by
  obtain ⟨k, hk, heq⟩ : ∃ k < src.size.y.toNat, firstRow dstPos src = ⟨0, (k : ℕ)⟩ := by
    rw [firstRow]
    split
    · exact ⟨0, by omega, rfl⟩
    · exact ⟨(src.size.y - 1).toNat, by omega, by rw [Int.toNat_of_nonneg (by omega)]⟩
  have hinside := (row_inside hpos hx hline hk).2
  rw [heq, offset_add_row]
  exact Int.lt_of_le_of_lt hinside hsmall

/-- In a frame buffer of less than 2 GiB, only moving to the side by less than the width goes wrong. -/
theorem movesRectangle_iff_of_small (hsrc : src.Within config) (hdst : (⟨dstPos, src.size⟩ : Rectangle).Within config)
    (hline : config.horizontalResolution ≤ config.pixelsPerScanLine) (hx : 0 < src.size.x) (hy : 0 < src.size.y)
    (hsmall : config.verticalResolution * config.lineBytes < 2 ^ 31) :
    config.MovesRectangle dstPos src ↔ (dstPos.y = src.pos.y → src.size.x ≤ |dstPos.x - src.pos.x|) := by
  have hlines : config.lineBytes < 2 ^ 31 := by
    have hone : 1 * config.lineBytes ≤ config.verticalResolution * config.lineBytes :=
      Int.mul_le_mul_of_nonneg_right (by have := hsrc.top; have := hsrc.bottom; omega) (lineBytes_nonneg config)
    omega
  have hwidth := hsrc.width_le hline
  rw [movesRectangle_iff_of_pos hsrc hdst hline hx hy]
  constructor
  · rintro ⟨-, ⟨-, hbeside⟩ | ⟨-, -, -, hle⟩⟩
    · exact hbeside
    · exact fun _ => hle
  · intro hbeside
    have hrow : ∀ pos, (⟨pos, src.size⟩ : Rectangle).Within config →
        config.offset (pos + firstRow dstPos src) + (4 * src.size.x).toNat < 2 ^ 31 := fun pos hpos =>
      offset_firstRow_lt hpos hline hx.le hy hsmall
    have hsource := hrow src.pos hsrc
    have htarget := hrow dstPos hdst
    exact ⟨by omega, .inl ⟨⟨⟨by omega, by omega⟩, fun _ => hlines⟩, hbeside⟩⟩

/-- What the pixels are, after the bytes of a rectangle have been moved. -/
theorem pixels_of_movesRectangle (h : config.MovesRectangle dstPos src) :
    ∃ calls, config.moveCalls dstPos src = some calls ∧
    ∀ (bytes : ℤ → UInt8) (p : Vector2D), config.outline.Contains p →
      (config.frameBuffer (afterMove bytes calls)).pixels p =
        (config.frameBuffer bytes).pixels
          (if (⟨dstPos, src.size⟩ : Rectangle).Contains p then p - (dstPos - src.pos) else p) := by
  obtain ⟨calls, hcalls, -, hpixels⟩ := h
  refine ⟨calls, hcalls, fun bytes p hp => storedColor_congr fun i hi => (hpixels bytes p hp i hi).trans ?_⟩
  split
  · rfl
  · rfl

end DuvuvurKernel
