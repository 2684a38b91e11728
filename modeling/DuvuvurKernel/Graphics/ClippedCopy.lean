import DuvuvurKernel.Graphics.FrameBytes

/-!
# Copying between frame buffers

`FrameBuffer::Copy` clips what it copies to both buffers, and copies it row by row. Of the pixels this is right however
the areas lie (`contains_copyArea`). Of the bytes it is as long as their offsets can be computed.

**Results.** Exactly when `Copy` copies the clipped area, and nothing else (`copiesClipped_iff`); the bytes are then
those of the pixels that the drawing of windows is based on (`pixels_of_copiesClipped`).
-/

namespace DuvuvurKernel

open Lib.Copies Lib.Strips

/-- The area of the destination that `Copy` writes. -/
def FrameBufferConfig.copyArea (dst : FrameBufferConfig) (dstPos : Vector2D) (src : FrameBufferConfig)
    (srcArea : Rectangle) : Rectangle :=
  let srcAreaShifted : Rectangle := ⟨dstPos, srcArea.size⟩
  let srcOutline : Rectangle := ⟨dstPos - srcArea.pos, src.frameBufferSize⟩
  dst.outline &&& srcOutline &&& srcAreaShifted

/-- `FrameBuffer::Copy`: its calls of `memcpy`. -/
def FrameBufferConfig.copyCalls (dst : FrameBufferConfig) (dstPos : Vector2D) (src : FrameBufferConfig)
    (srcArea : Rectangle) : Option (Except Error (List Memcpy)) :=
  if dst.pixelFormat ≠ src.pixelFormat then some (.error .unknownPixelFormat)
  else if bytesPerPixel dst.pixelFormat ≤ 0 then some (.error .unknownPixelFormat)
  else
    let area := dst.copyArea dstPos src srcArea
    let srcStartPos := area.pos - (dstPos - srcArea.pos)
    (memcpyRows (dst.frameAddrAt area.pos) (src.frameAddrAt srcStartPos) dst.bytesPerScanLine src.bytesPerScanLine
      area.size.y (bytesPerPixel dst.pixelFormat * area.size.x)).map .ok

/-- A pixel is to be copied: it lies in the area that is copied to, and in both buffers. -/
def FrameBufferConfig.Clipped (dst : FrameBufferConfig) (dstPos : Vector2D) (src : FrameBufferConfig)
    (srcArea : Rectangle) (p : Vector2D) : Prop :=
  dst.outline.Contains p ∧ src.outline.Contains (p - (dstPos - srcArea.pos)) ∧
    (⟨dstPos, srcArea.size⟩ : Rectangle).Contains p

instance (dst : FrameBufferConfig) (dstPos : Vector2D) (src : FrameBufferConfig) (srcArea : Rectangle) (p : Vector2D) :
    Decidable (dst.Clipped dstPos src srcArea p) := inferInstanceAs (Decidable (_ ∧ _))

/-- What a call writes and reads is inside the buffers. -/
def Memcpy.Inside (dst src : FrameBufferConfig) (call : Memcpy) : Prop :=
  0 < call.len → (0 ≤ call.dst ∧ call.dst + call.len ≤ dst.verticalResolution * dst.lineBytes) ∧
    0 ≤ call.src ∧ call.src + call.len ≤ src.verticalResolution * src.lineBytes

/-- The bytes of the destination after the calls, which copy from another buffer. -/
def afterCopy (bytes srcBytes : ℤ → UInt8) (calls : List Memcpy) (o : ℤ) : UInt8 :=
  copies (Sum.elim bytes srcBytes) (calls.flatMap (Memcpy.cells .inl .inr)) (.inl o)

/-- `Copy` copies the clipped area and nothing else, whatever the buffers hold. -/
def FrameBufferConfig.CopiesClipped (dst : FrameBufferConfig) (dstPos : Vector2D) (src : FrameBufferConfig)
    (srcArea : Rectangle) : Prop :=
  ∃ calls, dst.copyCalls dstPos src srcArea = some (.ok calls) ∧ (∀ call ∈ calls, call.Inside dst src) ∧
    ∀ (bytes srcBytes : ℤ → UInt8) (p : Vector2D), dst.outline.Contains p → ∀ i, 0 ≤ i ∧ i < 4 →
      afterCopy bytes srcBytes calls (dst.offset p + i) =
        if dst.Clipped dstPos src srcArea p then srcBytes (src.offset (p - (dstPos - srcArea.pos)) + i)
        else bytes (dst.offset p + i)

variable {dst src : FrameBufferConfig} {dstPos p : Vector2D} {srcArea r : Rectangle} {k j : ℕ}

/-! ### The clipped area -/

theorem contains_copyArea (dst : FrameBufferConfig) (dstPos : Vector2D) (src : FrameBufferConfig) (srcArea : Rectangle)
    (p : Vector2D) :
    (dst.copyArea dstPos src srcArea).Contains p ↔ dst.Clipped dstPos src srcArea p :=
  FrameBuffer.contains_copyArea (dst.frameBuffer fun _ => 0) dstPos (src.frameBuffer fun _ => 0) srcArea p

theorem copyArea_size_nonneg (dst : FrameBufferConfig) (dstPos : Vector2D) (src : FrameBufferConfig)
    (h : 0 ≤ srcArea.size.x ∧ 0 ≤ srcArea.size.y) :
    0 ≤ (dst.copyArea dstPos src srcArea).size.x ∧ 0 ≤ (dst.copyArea dstPos src srcArea).size.y :=
  @FrameBuffer.copyArea_size_nonneg (dst.frameBuffer fun _ => 0) dstPos (src.frameBuffer fun _ => 0) srcArea h

/-- A rectangle lies in a buffer if its corners do. -/
theorem within_of_contains (config : FrameBufferConfig) (hx : 0 < r.size.x) (hy : 0 < r.size.y) (shift : Vector2D)
    (h : ∀ p, r.Contains p → config.outline.Contains (p - shift)) :
    (⟨r.pos - shift, r.size⟩ : Rectangle).Within config := by
  obtain ⟨hleft, -, htop, -⟩ := h r.pos ⟨le_rfl, by omega, le_rfl, by omega⟩
  obtain ⟨-, hright, -, hbottom⟩ := h (r.pos + ⟨r.size.x - 1, r.size.y - 1⟩) (by
    simp only [Rectangle.Contains, Vector2D.add_x, Vector2D.add_y]
    omega)
  simp only [FrameBufferConfig.outline, FrameBufferConfig.frameBufferSize, Vector2D.sub_x, Vector2D.sub_y,
    Vector2D.add_x, Vector2D.add_y] at hleft hright htop hbottom
  exact ⟨by simpa using hleft, by simp only [Vector2D.sub_x]; omega, by simpa using htop, by
    simp only [Vector2D.sub_y]; omega⟩

theorem within_dst (hx : 0 < (dst.copyArea dstPos src srcArea).size.x)
    (hy : 0 < (dst.copyArea dstPos src srcArea).size.y) :
    (dst.copyArea dstPos src srcArea).Within dst := by
  have h := within_of_contains dst hx hy ⟨0, 0⟩ fun p hp => by
    obtain ⟨hdst, -⟩ := (contains_copyArea _ _ _ _ p).mp hp
    simpa only [Rectangle.Contains, Vector2D.sub_x, Vector2D.sub_y, sub_zero] using hdst
  obtain ⟨hleft, hright, htop, hbottom⟩ := h
  simp only [Vector2D.sub_x, Vector2D.sub_y, sub_zero] at hleft hright htop hbottom
  exact ⟨hleft, hright, htop, hbottom⟩

theorem within_src (hx : 0 < (dst.copyArea dstPos src srcArea).size.x)
    (hy : 0 < (dst.copyArea dstPos src srcArea).size.y) :
    (⟨(dst.copyArea dstPos src srcArea).pos - (dstPos - srcArea.pos), (dst.copyArea dstPos src srcArea).size⟩ :
    Rectangle).Within src :=
  within_of_contains src hx hy _ fun p hp => ((contains_copyArea _ _ _ _ p).mp hp).2.1

/-! ### The rows -/

/-- In the cells of a strip, the bytes of another buffer are copied as they are. -/
theorem afterCopy_cell {a b step step' : ℤ} {h n : ℕ} (hstep : (n : ℤ) ≤ |step|) (bytes srcBytes : ℤ → UInt8)
    (hk : k < h) (hj : j < n) :
    afterCopy bytes srcBytes (rowCalls a b step step' h n) (cell a step k j) = srcBytes (cell b step' k j) := by
  rw [afterCopy, cells_rowCalls]
  refine copies_apply (nodup_strip Sum.inl_injective (fun _ => hstep) _) ?_ (mem_strip.mpr ⟨k, hk, j, hj, rfl⟩)
  exact pairwise_strip.mpr ⟨fun _ _ _ _ _ _ => Sum.inr_ne_inl, fun _ _ _ _ _ _ _ _ => Sum.inr_ne_inl⟩

/-- Other bytes are not written. -/
theorem exists_of_afterCopy_ne {a b step step' o : ℤ} {h n : ℕ} (bytes srcBytes : ℤ → UInt8)
    (hne : afterCopy bytes srcBytes (rowCalls a b step step' h n) o ≠ bytes o) :
    ∃ k < h, ∃ j < n, cell a step k j = o := by
  rw [afterCopy, cells_rowCalls] at hne
  obtain ⟨x, hx, hxo⟩ := List.mem_map.mp (mem_of_copies_ne hne)
  obtain ⟨k, hk, j, hj, rfl⟩ := mem_strip.mp hx
  exact ⟨k, hk, j, hj, Sum.inl_injective hxo⟩

/-- Rows that copy every cell of a strip from the same cell of another one are those of the strips. -/
theorem start_step_of_afterCopy {a b a' b' line line' step step' : ℤ} {h n : ℕ} (hh : 0 < h) (hn : 0 < n)
    (hline : (n : ℤ) ≤ line) (hle : a' ≤ a)
    (hcells : ∀ (bytes srcBytes : ℤ → UInt8), ∀ k < h, ∀ j < n,
      afterCopy bytes srcBytes (rowCalls a' b' step step' h n) (cell a line k j) = srcBytes (cell b line' k j)) :
    (a' = a ∧ (1 < h → step = line)) ∧ b' = b ∧ (1 < h → step' = line') := by
  have ho : InOrder a line h a' step := inOrder_of_cover hh hn hline fun k hk j hj =>
    exists_of_afterCopy_ne (fun _ => 0) (fun _ => 1) (by
      rw [hcells _ _ k hk j hj]
      decide)
  obtain ⟨rfl, hstep⟩ := ho.of_le hh (Int.lt_of_lt_of_le (Int.natCast_pos.mpr hn) hline) hle
  refine ⟨⟨rfl, hstep⟩, start_step_of_cell_eq hh hn fun k hk j hj => ?_⟩
  -- A source in which only the byte that is wanted is 1.
  have hbyte := hcells (fun _ => 0) (fun o => if o = cell b line' k j then 1 else 0) k hk j hj
  rw [rowCalls_congr hstep fun _ => rfl, afterCopy_cell (hline.trans (le_abs_self _)) _ _ hk hj, if_pos rfl] at hbyte
  by_contra hne
  rw [if_neg hne] at hbyte
  exact absurd hbyte (by decide)

theorem copyCalls_eq_some_iff {calls : List Memcpy} (hformat : dst.pixelFormat = src.pixelFormat)
    (hr : dst.copyArea dstPos src srcArea = r) (hx : 0 ≤ r.size.x) (hy : 0 < r.size.y) :
    dst.copyCalls dstPos src srcArea = some (.ok calls) ↔ 4 * r.size.x < 2 ^ 31 ∧
      rowCalls (dst.frameAddrAt r.pos) (src.frameAddrAt (r.pos - (dstPos - srcArea.pos))) dst.bytesPerScanLine
        src.bytesPerScanLine r.size.y.toNat (4 * r.size.x).toNat = calls := by
  rw [FrameBufferConfig.copyCalls, if_neg (not_not_intro hformat), hr, bytesPerPixel_eq, if_neg (by decide)]
  simp only [Option.map_eq_some_iff, Except.ok.injEq, exists_eq_right]
  rw [memcpyRows_eq_some hy, and_iff_right (a := 0 ≤ 4 * r.size.x) (by omega)]

/-- The byte of a pixel of the source. -/
theorem cell_eq_offset_sub (config : FrameBufferConfig) {q shift : Vector2D} {i : ℤ} (hk : (k : ℤ) = p.y - q.y)
    (hj : (j : ℤ) = 4 * (p.x - q.x) + i) :
    cell (config.offset (q - shift)) config.lineBytes k j = config.offset (p - shift) + i :=
  cell_eq_offset config (by simp only [Vector2D.sub_y]; omega) (by simp only [Vector2D.sub_x]; omega)

/-- The calls copy the area if their addresses are right, and only then. -/
theorem copiesClipped_iff_addresses (hformat : dst.pixelFormat = src.pixelFormat)
    (hdst : dst.horizontalResolution ≤ dst.pixelsPerScanLine) (hsrc : src.horizontalResolution ≤ src.pixelsPerScanLine)
    (hr : dst.copyArea dstPos src srcArea = r) (hx : 0 < r.size.x) (hy : 0 < r.size.y) :
    dst.CopiesClipped dstPos src srcArea ↔
      4 * r.size.x < 2 ^ 31 ∧ dst.frameAddrAt r.pos = dst.offset r.pos ∧
        src.frameAddrAt (r.pos - (dstPos - srcArea.pos)) = src.offset (r.pos - (dstPos - srcArea.pos)) ∧
        (1 < r.size.y → dst.bytesPerScanLine = dst.lineBytes ∧ src.bytesPerScanLine = src.lineBytes) := by
  have hcontains : ∀ p, r.Contains p ↔ dst.Clipped dstPos src srcArea p :=
    fun p => hr ▸ contains_copyArea dst dstPos src srcArea p
  have hwithin : r.Within dst := hr ▸ within_dst (hr ▸ hx) (hr ▸ hy)
  have hwithin' : (⟨r.pos - (dstPos - srcArea.pos), r.size⟩ : Rectangle).Within src :=
    hr ▸ within_src (hr ▸ hx) (hr ▸ hy)
  have hline : ((4 * r.size.x).toNat : ℤ) ≤ dst.lineBytes := by
    rw [Int.toNat_of_nonneg (by omega)]
    exact hwithin.width_le hdst
  simp only [FrameBufferConfig.CopiesClipped, copyCalls_eq_some_iff hformat hr hx.le hy]
  constructor
  · rintro ⟨calls, ⟨hlen, rfl⟩, -, hpixels⟩
    -- In the terms of the rows, every cell gets the byte of the source.
    have hcells : ∀ (bytes srcBytes : ℤ → UInt8), ∀ k < r.size.y.toNat, ∀ j < (4 * r.size.x).toNat,
        afterCopy bytes srcBytes (rowCalls (dst.frameAddrAt r.pos) (src.frameAddrAt (r.pos - (dstPos - srcArea.pos)))
            dst.bytesPerScanLine src.bytesPerScanLine r.size.y.toNat (4 * r.size.x).toNat)
          (cell (dst.offset r.pos) dst.lineBytes k j) =
        srcBytes (cell (src.offset (r.pos - (dstPos - srcArea.pos))) src.lineBytes k j) := by
      intro bytes srcBytes k hk j hj
      obtain ⟨p, i, hp, hi, hk', hj'⟩ := exists_pixel hk hj
      have hclip := (hcontains p).mp hp
      rw [cell_eq_offset dst hk' hj', cell_eq_offset_sub src hk' hj', hpixels bytes srcBytes p hclip.1 i hi,
        if_pos hclip]
    obtain ⟨⟨haddr, hstep⟩, haddr', hstep'⟩ := start_step_of_afterCopy (by omega) (by omega) hline
      (frameAddrAt_le (offset_nonneg dst hwithin.left hwithin.top)) hcells
    exact ⟨hlen, haddr, haddr', fun h1 => ⟨hstep (by omega), hstep' (by omega)⟩⟩
  · rintro ⟨hlen, haddr, haddr', hsteps⟩
    have hrows : rowCalls (dst.offset r.pos) (src.offset (r.pos - (dstPos - srcArea.pos))) dst.bytesPerScanLine
        src.bytesPerScanLine r.size.y.toNat (4 * r.size.x).toNat =
      rowCalls (dst.offset r.pos) (src.offset (r.pos - (dstPos - srcArea.pos))) dst.lineBytes src.lineBytes
        r.size.y.toNat (4 * r.size.x).toNat :=
      rowCalls_congr (fun h1 => (hsteps (by omega)).1) fun h1 => (hsteps (by omega)).2
    rw [haddr, haddr', hrows]
    refine ⟨_, ⟨hlen, rfl⟩, ?_, fun bytes srcBytes p hp i hi => ?_⟩
    · intro call hcall _
      obtain ⟨k, hk, rfl⟩ := mem_rowCalls.mp hcall
      exact ⟨row_inside hwithin hx.le hdst hk, row_inside hwithin' hx.le hsrc hk⟩
    · by_cases hclip : dst.Clipped dstPos src srcArea p
      · obtain ⟨k, hk, j, hj, hk', hj'⟩ := exists_cell ((hcontains p).mpr hclip) hi
        rw [if_pos hclip, ← cell_eq_offset dst hk' hj', ← cell_eq_offset_sub src hk' hj']
        exact afterCopy_cell (hline.trans (le_abs_self _)) bytes srcBytes hk hj
      · rw [if_neg hclip]
        by_contra hne
        obtain ⟨k, hk, j, hj, heq⟩ := exists_of_afterCopy_ne _ _ hne
        exact hclip ((hcontains p).mp (contains_of_cell hwithin hp hdst hi hk hj heq))

/-! ### What `Copy` copies -/

/-- The offsets of the area to be copied can be computed: the first pixel begins below 2^32, a row has less than 2^31
bytes, and if there is a next row, a scan line has as well. -/
def FrameBufferConfig.CopyFits (dst : FrameBufferConfig) (dstPos : Vector2D) (src : FrameBufferConfig)
    (srcArea : Rectangle) : Prop :=
  ∀ p, dst.Clipped dstPos src srcArea p → (∀ q, dst.Clipped dstPos src srcArea q → p.x ≤ q.x ∧ p.y ≤ q.y) →
    (dst.offset p < 2 ^ 32 ∧ src.offset (p - (dstPos - srcArea.pos)) < 2 ^ 32) ∧
      ∀ q, dst.Clipped dstPos src srcArea q →
        4 * (q.x - p.x + 1) < 2 ^ 31 ∧ (p.y < q.y → dst.lineBytes < 2 ^ 31 ∧ src.lineBytes < 2 ^ 31)

/-- An empty area is not copied. -/
theorem copiesClipped_of_empty (hformat : dst.pixelFormat = src.pixelFormat) (hr : dst.copyArea dstPos src srcArea = r)
    (hempty : r.size.y ≤ 0 ∨ r.size.x = 0) : dst.CopiesClipped dstPos src srcArea := by
  obtain ⟨h, hrows⟩ := memcpyRows_of_empty (dst.frameAddrAt r.pos) (src.frameAddrAt (r.pos - (dstPos - srcArea.pos)))
    dst.bytesPerScanLine src.bytesPerScanLine (hempty.imp_right fun hx => (by rw [hx, mul_zero] : 4 * r.size.x = 0))
  refine ⟨rowCalls (dst.frameAddrAt r.pos) (src.frameAddrAt (r.pos - (dstPos - srcArea.pos))) dst.bytesPerScanLine
    src.bytesPerScanLine h 0, ?_, fun call hcall hlen => ?_, fun bytes srcBytes p hp i hi => ?_⟩
  · rw [FrameBufferConfig.copyCalls, if_neg (not_not_intro hformat), hr, bytesPerPixel_eq, if_neg (by decide)]
    simp only [hrows, Option.map_some]
  · obtain ⟨k, -, rfl⟩ := mem_rowCalls.mp hcall
    exact absurd hlen (Nat.lt_irrefl 0)
  · have hclip : ¬ dst.Clipped dstPos src srcArea p := by
      rw [← contains_copyArea, hr, Rectangle.Contains]
      omega
    rw [if_neg hclip]
    by_contra hne
    obtain ⟨k, -, j, hj, -⟩ := exists_of_afterCopy_ne _ _ hne
    exact absurd hj (Nat.not_lt_zero j)

/-- **`Copy` copies the clipped area**, and nothing else, if and only if the offsets of the area can be computed. -/
theorem copiesClipped_iff (hformat : dst.pixelFormat = src.pixelFormat)
    (hdst : dst.horizontalResolution ≤ dst.pixelsPerScanLine) (hsrc : src.horizontalResolution ≤ src.pixelsPerScanLine)
    (hsize : 0 ≤ srcArea.size.x ∧ 0 ≤ srcArea.size.y) :
    dst.CopiesClipped dstPos src srcArea ↔ dst.CopyFits dstPos src srcArea := by
  obtain ⟨hx, hy⟩ := copyArea_size_nonneg dst dstPos src hsize
  have hcontains := contains_copyArea dst dstPos src srcArea
  generalize hr : dst.copyArea dstPos src srcArea = r at hx hy hcontains
  simp only [Rectangle.Contains] at hcontains
  rcases Int.lt_or_le 0 r.size.y with hy' | hy'
  · rcases Int.lt_or_le 0 r.size.x with hx' | hx'
    · -- The corners of the area.
      have hfirst := (hcontains r.pos).mp ⟨le_rfl, by omega, le_rfl, by omega⟩
      have hlast := (hcontains (r.pos + ⟨r.size.x - 1, r.size.y - 1⟩)).mp (by
        simp only [Vector2D.add_x, Vector2D.add_y]
        omega)
      have haddr := offset_nonneg_of_contains dst hfirst.1
      have haddr' := offset_nonneg_of_contains src hfirst.2.1
      rw [copiesClipped_iff_addresses hformat hdst hsrc hr hx' hy', frameAddrAt_eq_iff haddr, frameAddrAt_eq_iff haddr',
        bytesPerScanLine_eq_iff, bytesPerScanLine_eq_iff]
      constructor
      · rintro ⟨hlen, hoffset, hoffset', hlines⟩ p hp hcorner
        obtain ⟨hpx, hpy⟩ := hcorner r.pos hfirst
        obtain ⟨hpx', -, hpy', -⟩ := (hcontains p).mpr hp
        obtain rfl : p = r.pos := Vector2D.ext (le_antisymm hpx hpx') (le_antisymm hpy hpy')
        refine ⟨⟨hoffset, hoffset'⟩, fun q hq => ?_⟩
        have hq' := (hcontains q).mpr hq
        exact ⟨by omega, fun hrow => hlines (by omega)⟩
      · intro hfits
        obtain ⟨⟨hoffset, hoffset'⟩, hall⟩ := hfits r.pos hfirst fun q hq =>
          ⟨((hcontains q).mpr hq).1, ((hcontains q).mpr hq).2.2.1⟩
        obtain ⟨hlen, hlines⟩ := hall _ hlast
        simp only [Vector2D.add_x, Vector2D.add_y] at hlen hlines
        exact ⟨by omega, hoffset, hoffset', fun h1 => hlines (by omega)⟩
    · refine iff_of_true (copiesClipped_of_empty hformat hr (.inr (le_antisymm hx' hx))) fun p hp _ => ?_
      have hp' := (hcontains p).mpr hp
      omega
  · refine iff_of_true (copiesClipped_of_empty hformat hr (.inl hy')) fun p hp _ => ?_
    have hp' := (hcontains p).mpr hp
    omega

/-- A copy that is clipped on the left and at the top. -/
theorem copiesClipped_corner :
    (plainConfig 4 4).CopiesClipped ⟨-1, -1⟩ (plainConfig 2 2) ⟨⟨0, 0⟩, ⟨2, 2⟩⟩ := by
  have hformat : (plainConfig 4 4).pixelFormat = (plainConfig 2 2).pixelFormat := rfl
  refine (copiesClipped_iff hformat (by decide) (by decide) (by decide)).mpr fun p hp _ => ?_
  obtain ⟨hdst, hsrc, -⟩ := hp
  simp only [Rectangle.Contains, FrameBufferConfig.outline, FrameBufferConfig.frameBufferSize, plainConfig,
    Vector2D.sub_x, Vector2D.sub_y] at hdst hsrc
  refine ⟨⟨?_, ?_⟩, fun q hq => ?_⟩
  · simp only [FrameBufferConfig.offset, FrameBufferConfig.lineBytes, plainConfig]
    omega
  · simp only [FrameBufferConfig.offset, FrameBufferConfig.lineBytes, plainConfig, Vector2D.sub_x, Vector2D.sub_y]
    omega
  · have hq' := hq.1
    simp only [Rectangle.Contains, FrameBufferConfig.outline, FrameBufferConfig.frameBufferSize, plainConfig] at hq'
    exact ⟨by omega, fun _ => by decide⟩

/-- In a frame buffer of 4 GiB and a row, what is to be copied to the last row is copied to the first. -/
theorem not_copiesClipped_large :
    ¬ (plainConfig 65536 16385).CopiesClipped ⟨0, 16384⟩ (plainConfig 1 1) ⟨⟨0, 0⟩, ⟨1, 1⟩⟩ := by
  have hformat : (plainConfig 65536 16385).pixelFormat = (plainConfig 1 1).pixelFormat := rfl
  intro h
  have haddr := ((copiesClipped_iff_addresses (r :=
    ⟨⟨0, 16384⟩, ⟨1, 1⟩⟩) hformat (by decide) (by decide) (by decide) (by decide)
    (by decide)).mp h).2.1
  exact absurd haddr (by decide)

/-! ### The pixels -/

/-- A copy of the bytes is a copy of the pixels. -/
theorem pixels_of_copiesClipped (hformat : dst.pixelFormat = src.pixelFormat)
    (h : dst.CopiesClipped dstPos src srcArea) :
    ∃ calls, dst.copyCalls dstPos src srcArea = some (.ok calls) ∧
      ∀ (bytes srcBytes : ℤ → UInt8) (p : Vector2D), dst.outline.Contains p →
        (dst.frameBuffer (afterCopy bytes srcBytes calls)).pixels p =
          ((dst.frameBuffer bytes).copied dstPos (src.frameBuffer srcBytes) srcArea).pixels p := by
  obtain ⟨calls, hcalls, -, hpixels⟩ := h
  refine ⟨calls, hcalls, fun bytes srcBytes p hp => ?_⟩
  have hbytes := hpixels bytes srcBytes p hp
  rw [FrameBuffer.pixels_copied hformat]
  have harea : ((dst.frameBuffer bytes).copyArea dstPos (src.frameBuffer srcBytes) srcArea).Contains p ↔
      dst.Clipped dstPos src srcArea p := contains_copyArea dst dstPos src srcArea p
  by_cases hclip : dst.Clipped dstPos src srcArea p
  · rw [if_pos (harea.mpr hclip)]
    simp only [if_pos hclip] at hbytes
    exact (storedColor_congr hbytes).trans (by rw [hformat]; rfl)
  · rw [if_neg (harea.not.mpr hclip)]
    simp only [if_neg hclip] at hbytes
    exact storedColor_congr hbytes

end DuvuvurKernel
