import DuvuvurKernel.Graphics.OverlappingMove
import DuvuvurKernel.Graphics.Window
import DuvuvurKernel.Lib.Runs

/-!
# The two copies of a window's pixels

A window keeps its pixels in `data_` and in `shadow_buffer_`. `Window::Write` writes both; `Window::Move` moves those of
the shadow buffer only. `At` and a transparent window show `data_`, an opaque window shows the shadow buffer.

## The model

`data_` is a function of the position, the shadow buffer is its bytes. A call of `memcpy` with ranges that have bytes in
common is undefined. The positions of a call are inside the window, which is part of the call.

**Result** (`agree_iff`): along a run, the two copies agree just as long as every `Move` puts pixels in the place of
pixels of the same colour, and not sideways by less than its width. What a terminal scrolls away does not come back, but
`At` still finds it (`scrolled_apart`).
-/

namespace DuvuvurKernel

open Lib.Runs

/-- What a window keeps while its pixels change. -/
structure WindowShape where
  width : ℕ
  height : ℕ
  /-- The pixel format of `shadow_buffer_`. -/
  shadowFormat : PixelFormat
  /-- `data_` is on the heap of the kernel, of 64 * 512 frames. -/
  inHeap : 3 * (width * height) ≤ 64 * 512 * 4096

/-- The configuration of `shadow_buffer_`. -/
def WindowShape.config (w : WindowShape) : FrameBufferConfig := ⟨w.width, w.width, w.height, w.shadowFormat⟩

/-- `Write` of the writers of both pixel formats. -/
def FrameBufferConfig.written (config : FrameBufferConfig) (bytes : ℤ → UInt8) (pos : Vector2D) (c : PixelColor) :
    ℤ → UInt8 :=
  let p := config.pixelAt pos
  match config.pixelFormat with
  | .rgbResv8BitPerColor => Function.update (Function.update (Function.update bytes p c.r) (p + 1) c.g) (p + 2) c.b
  | .bgrResv8BitPerColor => Function.update (Function.update (Function.update bytes p c.b) (p + 1) c.g) (p + 2) c.r

/-- The two copies. -/
structure PixelCopies where
  /-- `data_`. -/
  data : Vector2D → PixelColor
  /-- The bytes of `shadow_buffer_`. -/
  shadow : ℤ → UInt8

/-- Those of a new window. -/
def PixelCopies.new : PixelCopies := ⟨fun _ => ⟨0, 0, 0⟩, fun _ => 0⟩

/-- A call of `Write` or `Move`, inside the window. -/
inductive WindowCall (w : WindowShape)
  | write (pos : Vector2D) (c : PixelColor) (hpos : w.config.outline.Contains pos)
  | move (dstPos : Vector2D) (src : Rectangle) (hsize : 0 ≤ src.size.x ∧ 0 ≤ src.size.y) (hsrc : src.Within w.config)
      (hdst : (⟨dstPos, src.size⟩ : Rectangle).Within w.config)

instance decidable_disjoint (call : Memcpy) : Decidable call.Disjoint :=
  inferInstanceAs (Decidable ((call.len : ℤ) ≤ |call.dst - call.src|))

/-- `Window::Write` and `Window::Move`. -/
def PixelCopies.perform {w : WindowShape} (s : PixelCopies) : WindowCall w → Option PixelCopies
  | .write pos c _ => some ⟨Function.update s.data pos c, w.config.written s.shadow pos c⟩
  | .move dstPos src _ _ _ => (w.config.moveCalls dstPos src).bind fun calls =>
      if ∀ call ∈ calls, call.Disjoint then some ⟨s.data, afterMove s.shadow calls⟩ else none

/-- The window with these copies. -/
def PixelCopies.window (w : WindowShape) (s : PixelCopies) (transparentColor : Option PixelColor) : Window where
  width := w.width
  height := w.height
  shadowFormat := w.shadowFormat
  transparentColor := transparentColor
  contents := ⟨s.data, (w.config.frameBuffer s.shadow).pixels⟩
  activate := id
  deactivate := id

/-! ### What is asked of it -/

/-- The copies hold the same pixels. -/
def PixelCopies.Same (w : WindowShape) (s : PixelCopies) : Prop :=
  ∀ p, w.config.outline.Contains p → s.data p = (w.config.frameBuffer s.shadow).pixels p

/-- What `DrawTo` draws of the window as an opaque one (in the area, and in the format of the window) is what it would
draw of it with a transparent colour that does not occur in it. -/
def PixelCopies.PathsAgree (w : WindowShape) (s : PixelCopies) : Prop :=
  ∀ (dst : FrameBuffer) (pos : Vector2D) (area : Rectangle) (tc : PixelColor),
    (∀ p, w.config.outline.Contains p → (s.window w (some tc)).at' p ≠ tc) → ∀ p, dst.outline.Contains p →
      ((s.window w none).drawTo dst pos area).pixels p =
        if dst.pixelFormat = w.shadowFormat ∧ area.Contains p then
          ((s.window w (some tc)).drawTo dst pos area).pixels p
        else dst.pixels p

/-- The two copies agree. -/
def PixelCopies.Agree (w : WindowShape) (s : PixelCopies) : Prop := s.Same w ∧ s.PathsAgree w

/-- The call is defined, and leaves two copies that agree. -/
def PixelCopies.StaysAgreed {w : WindowShape} (s : PixelCopies) (call : WindowCall w) : Prop :=
  ∃ s', s.perform call = some s' ∧ s'.Agree w

/-- A rectangle is empty, or not moved sideways by less than its width. -/
def Beside (dstPos : Vector2D) (src : Rectangle) : Prop :=
  src.size.x = 0 ∨ src.size.y = 0 ∨ (dstPos.y = src.pos.y → src.size.x ≤ |dstPos.x - src.pos.x|)

/-- A call that does not separate the copies: what it moves has the colours of what is there before. -/
def PixelCopies.Keeps {w : WindowShape} (s : PixelCopies) : WindowCall w → Prop
  | .write .. => True
  | .move dstPos src _ _ _ => Beside dstPos src ∧
      ∀ p, (⟨dstPos, src.size⟩ : Rectangle).Contains p → s.data p = s.data (p - (dstPos - src.pos))

variable {w : WindowShape} {s s' : PixelCopies} {config : FrameBufferConfig} {p pos : Vector2D}

/-! ### Sizes -/

theorem WindowShape.small (w : WindowShape) : w.config.verticalResolution * w.config.lineBytes < 2 ^ 31 := by
  have hheap : 3 * ((w.width : ℤ) * w.height) ≤ 64 * 512 * 4096 := mod_cast w.inHeap
  calc w.config.verticalResolution * w.config.lineBytes = 4 * ((w.width : ℤ) * w.height) := by
        rw [FrameBufferConfig.lineBytes, WindowShape.config]
        ring
    _ < 2 ^ 31 := by omega

/-- The address of a pixel fits in 32 bits. -/
theorem WindowShape.pixelAt_eq (w : WindowShape) (hp : w.config.outline.Contains p) :
    w.config.pixelAt p = w.config.offset p := by
  obtain ⟨hx, hy⟩ := contains_outline_iff.mp hp
  have hpixel : (⟨p, ⟨1, 1⟩⟩ : Rectangle).Within w.config :=
    ⟨hx.1, Int.add_one_le_of_lt hx.2, hy.1, Int.add_one_le_of_lt hy.2⟩
  have hinside := (row_inside (k := 0) hpixel Int.one_nonneg le_rfl Nat.one_pos).2
  have hnonneg := offset_nonneg_of_contains w.config hp
  have hsmall := w.small
  have hpixelAt : w.config.pixelAt p = w.config.offset p % 2 ^ 32 := by
    rw [FrameBufferConfig.pixelAt, FrameBufferConfig.offset, FrameBufferConfig.lineBytes]
    ring_nf
  rw [hpixelAt]
  push_cast at hinside
  omega

/-! ### `Write` -/

theorem storedColor_written (bytes : ℤ → UInt8) (c : PixelColor) :
    storedColor config.pixelFormat (config.written bytes pos c) (config.pixelAt pos) = c := by
  unfold FrameBufferConfig.written
  cases config.pixelFormat <;> simp [storedColor, Function.update]

/-- The bytes that are not those of the pixel. -/
theorem written_of_ne {o : ℤ} (bytes : ℤ → UInt8) (c : PixelColor)
    (h : o < config.pixelAt pos ∨ config.pixelAt pos + 4 ≤ o) : config.written bytes pos c o = bytes o := by
  have h0 : o ≠ config.pixelAt pos := by omega
  have h1 : o ≠ config.pixelAt pos + 1 := by omega
  have h2 : o ≠ config.pixelAt pos + 2 := by omega
  unfold FrameBufferConfig.written
  cases config.pixelFormat <;> simp only [Function.update_of_ne h0, Function.update_of_ne h1, Function.update_of_ne h2]

/-- `Write` writes a pixel of the shadow buffer. -/
theorem WindowShape.pixels_written (w : WindowShape) (bytes : ℤ → UInt8) (c : PixelColor)
    (hpos : w.config.outline.Contains pos) (hp : w.config.outline.Contains p) :
    (w.config.frameBuffer (w.config.written bytes pos c)).pixels p =
      Function.update (w.config.frameBuffer bytes).pixels pos c p := by
  by_cases heq : p = pos
  · rw [heq, Function.update_self]
    have hstored : storedColor _ (w.config.written bytes pos c) (w.config.pixelAt pos) = c :=
      storedColor_written bytes c
    rwa [w.pixelAt_eq hpos] at hstored
  · have hline : w.config.horizontalResolution ≤ w.config.pixelsPerScanLine := le_rfl
    have hapart := offset_apart hline hp hpos heq
    rw [Function.update_of_ne heq]
    exact storedColor_congr fun i hi => written_of_ne bytes c (by rw [w.pixelAt_eq hpos]; omega)

/-! ### `Move` -/

section

variable {dstPos : Vector2D} {src : Rectangle} (hsize : 0 ≤ src.size.x ∧ 0 ≤ src.size.y) (hsrc : src.Within w.config)
  (hdst : (⟨dstPos, src.size⟩ : Rectangle).Within w.config)

include hsize hsrc hdst

theorem movesRectangle_of_beside (h : Beside dstPos src) : w.config.MovesRectangle dstPos src := by
  rcases hsize.1.eq_or_lt with hx | hx
  · exact movesRectangle_of_empty (.inr hx.symm)
  rcases hsize.2.eq_or_lt with hy | hy
  · exact movesRectangle_of_empty (.inl hy.symm.le)
  exact (movesRectangle_iff_of_small hsrc hdst le_rfl hx hy w.small).mpr
    ((h.resolve_left hx.ne').resolve_left hy.ne')

/-- To the side, the ranges of all calls are as far from each other as the rectangles. -/
theorem beside_of_disjoint {calls : List Memcpy} (hcalls : w.config.moveCalls dstPos src = some calls)
    (hdisjoint : ∀ call ∈ calls, call.Disjoint) : Beside dstPos src := by
  rcases hsize.1.eq_or_lt with hx | hx
  · exact .inl hx.symm
  rcases hsize.2.eq_or_lt with hy | hy
  · exact .inr (.inl hy.symm)
  refine .inr (.inr fun hlevel => ?_)
  have hdown : ¬ dstPos.y < src.pos.y := hlevel.not_lt
  have hrow : firstRow dstPos src = ⟨0, src.size.y - 1⟩ := by rw [firstRow, if_neg hdown]
  have haddr : ∀ pos, (⟨pos, src.size⟩ : Rectangle).Within w.config →
      w.config.frameAddrAt (pos + ⟨0, src.size.y - 1⟩) = w.config.offset (pos + ⟨0, src.size.y - 1⟩) := by
    intro pos hpos
    have hlt : w.config.offset (pos + firstRow dstPos src) + (4 * src.size.x).toNat < 2 ^ 31 :=
      offset_firstRow_lt hpos le_rfl hx.le hy w.small
    have hnonneg : 0 ≤ w.config.offset (pos + ⟨0, src.size.y - 1⟩) :=
      offset_nonneg w.config (Int.add_nonneg hpos.left le_rfl) (Int.add_nonneg hpos.top (Int.sub_nonneg_of_le hy))
    rw [hrow] at hlt
    exact (frameAddrAt_eq_iff hnonneg).mpr (by omega)
  rw [FrameBufferConfig.moveCalls, if_neg hdown, memcpyRows_eq_some hy] at hcalls
  obtain ⟨⟨hlen, -⟩, rfl⟩ := hcalls
  have hfar := (disjoint_rowCalls (by omega)).mp hdisjoint
  rw [haddr dstPos hdst, haddr src.pos hsrc, offset_sub_offset, Int.toNat_of_nonneg hlen, bytesPerPixel_eq] at hfar
  have hshift : (dstPos + ⟨0, src.size.y - 1⟩ : Vector2D).x - (src.pos + ⟨0, src.size.y - 1⟩ : Vector2D).x =
      dstPos.x - src.pos.x := by
    simp
  have hsame : (dstPos + ⟨0, src.size.y - 1⟩ : Vector2D).y - (src.pos + ⟨0, src.size.y - 1⟩ : Vector2D).y = 0 := by
    simp [hlevel]
  rwa [hshift, hsame, zero_mul, zero_add, four_mul_le_abs_iff] at hfar

/-- A call of `Move` is defined if no row is moved sideways by less than its width. -/
theorem exists_perform_move (s : PixelCopies) (h : Beside dstPos src) :
    ∃ s', s.perform (.move dstPos src hsize hsrc hdst) = some s' := by
  obtain ⟨calls, hcalls, hdisjoint, -⟩ := movesRectangle_of_beside hsize hsrc hdst h
  rw [PixelCopies.perform, hcalls]
  exact ⟨_, if_pos hdisjoint⟩

/-- What it leaves. -/
theorem perform_move (hs : s.perform (.move dstPos src hsize hsrc hdst) = some s') :
    Beside dstPos src ∧ s'.data = s.data ∧ ∀ p, w.config.outline.Contains p →
      (w.config.frameBuffer s'.shadow).pixels p = (w.config.frameBuffer s.shadow).pixels
        (if (⟨dstPos, src.size⟩ : Rectangle).Contains p then p - (dstPos - src.pos) else p) := by
  obtain ⟨calls, hcalls, hif⟩ := Option.bind_eq_some_iff.mp hs
  obtain ⟨hdisjoint, hs'⟩ := Option.ite_none_right_eq_some.mp hif
  obtain rfl := Option.some_inj.mp hs'
  have hbeside := beside_of_disjoint hsize hsrc hdst hcalls hdisjoint
  obtain ⟨calls', hcalls', hpixels⟩ := pixels_of_movesRectangle (movesRectangle_of_beside hsize hsrc hdst hbeside)
  obtain rfl := Option.some_inj.mp (hcalls.symm.trans hcalls')
  exact ⟨hbeside, rfl, hpixels s.shadow⟩

end

/-! ### The two copies -/

/-- A window with a transparent colour that does not occur in it shows what an opaque one shows. -/
theorem PixelCopies.Same.colorAt_eq {tc : PixelColor} (h : s.Same w)
    (htc : ∀ p, w.config.outline.Contains p → (s.window w (some tc)).at' p ≠ tc) :
    (s.window w none).colorAt pos p = (s.window w (some tc)).colorAt pos p := by
  by_cases hin : (⟨pos, (s.window w none).size⟩ : Rectangle).Contains p
  · have hp : w.config.outline.Contains (p - pos) := by
      obtain ⟨hx, hx', hy, hy'⟩ : pos.x ≤ p.x ∧ p.x < pos.x + w.width ∧ pos.y ≤ p.y ∧ p.y < pos.y + w.height := hin
      simp only [contains_outline_iff, Vector2D.sub_x, Vector2D.sub_y, WindowShape.config]
      omega
    calc (s.window w none).colorAt pos p = some ((w.config.frameBuffer s.shadow).pixels (p - pos)) := if_pos hin
      _ = some (s.data (p - pos)) := by rw [h (p - pos) hp]
      _ = if s.data (p - pos) ≠ tc then some (s.data (p - pos)) else none := (if_pos (htc _ hp)).symm
      _ = (s.window w (some tc)).colorAt pos p := (if_pos hin).symm
  · have hout : ∀ tc, (s.window w tc).colorAt pos p = none := fun tc => if_neg hin
    rw [hout, hout]

/-- Copies that hold the same pixels are drawn as the same pixels. -/
theorem PixelCopies.Same.pathsAgree (h : s.Same w) : s.PathsAgree w := by
  intro dst pos area tc htc p hp
  split
  next hdrawn =>
    obtain ⟨hf, harea⟩ := hdrawn
    rw [Window.pixels_drawTo hf pos area hp, Window.pixels_drawTo hf pos area hp, Window.drawnAt_of_contains harea,
      Window.drawnAt_of_contains harea, h.colorAt_eq htc]
  next hdrawn =>
    by_cases hf : dst.pixelFormat = w.shadowFormat
    · have hout : (s.window w none).drawnAt pos area p = none := if_pos ⟨rfl, fun harea => hdrawn ⟨hf, harea⟩⟩
      rw [Window.pixels_drawTo hf pos area hp, hout, Option.getD_none]
    · -- `Copy` returns an error.
      have hcopied : (s.window w none).drawTo dst pos area = dst := FrameBuffer.copied_of_ne hf ..
      rw [hcopied]

theorem PixelCopies.agree_iff_same : s.Agree w ↔ s.Same w := and_iff_left_of_imp PixelCopies.Same.pathsAgree

theorem PixelCopies.same_new (w : WindowShape) : PixelCopies.new.Same w := by
  intro p _
  rw [FrameBufferConfig.frameBuffer]
  cases w.config.pixelFormat <;> rfl

/-- **A call.** From copies that agree, it leaves two that agree just when it does not separate them. -/
theorem PixelCopies.Same.staysAgreed_iff (h : s.Same w) (call : WindowCall w) : s.StaysAgreed call ↔ s.Keeps call := by
  cases call with
  | write pos c hpos =>
    refine iff_of_true ⟨_, rfl, PixelCopies.agree_iff_same.mpr fun p hp => ?_⟩ trivial
    rw [w.pixels_written s.shadow c hpos hp]
    dsimp only
    rcases eq_or_ne p pos with rfl | hne
    · rw [Function.update_self, Function.update_self]
    · rw [Function.update_of_ne hne, Function.update_of_ne hne, h p hp]
  | move dstPos src hsize hsrc hdst =>
    -- Where the pixel that is seen at `p` comes from, in the shadow buffer.
    have hfrom : ∀ {p}, (⟨dstPos, src.size⟩ : Rectangle).Contains p →
        w.config.outline.Contains (p - (dstPos - src.pos)) := by
      rintro p ⟨hx, hx', hy, hy'⟩
      refine hsrc.contains ?_
      dsimp only at hx hx' hy hy'
      simp only [Rectangle.Contains, Vector2D.sub_x, Vector2D.sub_y]
      omega
    constructor
    · rintro ⟨s', hs', hagree⟩
      obtain ⟨hbeside, hdata, hpixels⟩ := perform_move hsize hsrc hdst hs'
      refine ⟨hbeside, fun p hp => ?_⟩
      have hin := hdst.contains hp
      calc s.data p = s'.data p := by rw [hdata]
        _ = (w.config.frameBuffer s'.shadow).pixels p := (PixelCopies.agree_iff_same.mp hagree) p hin
        _ = (w.config.frameBuffer s.shadow).pixels (p - (dstPos - src.pos)) := by rw [hpixels p hin, if_pos hp]
        _ = s.data (p - (dstPos - src.pos)) := (h _ (hfrom hp)).symm
    · rintro ⟨hbeside, hcolors⟩
      obtain ⟨s', hs'⟩ := exists_perform_move hsize hsrc hdst s hbeside
      obtain ⟨-, hdata, hpixels⟩ := perform_move hsize hsrc hdst hs'
      refine ⟨s', hs', PixelCopies.agree_iff_same.mpr fun p hin => ?_⟩
      rw [hdata, hpixels p hin]
      split
      next hp => rw [hcolors p hp, h _ (hfrom hp)]
      next hp => exact h p hin

/-- **The two copies of the pixels.** For all windows whose two copies agree, along all runs of `Write` and `Move`: the
copies agree after every call just as long as every `Move` puts pixels in the place of pixels of the same colour, and
not sideways by less than its width. -/
theorem agree_iff (h : s.Agree w) (calls : List (WindowCall w)) :
    Along PixelCopies.perform PixelCopies.StaysAgreed s calls ↔
      Along PixelCopies.perform PixelCopies.Keeps s calls := by
  have hcall : ∀ (s : PixelCopies) (call : WindowCall w), s.Same w → (s.StaysAgreed call ↔ s.Keeps call) :=
    fun _ call hs => hs.staysAgreed_iff call
  refine Along.congr hcall ?_ h.1
  intro s call s' hs hkeeps hs'
  obtain ⟨s₁, hs₁, hagree⟩ := (hs.staysAgreed_iff call).mpr hkeeps
  obtain rfl := Option.some_inj.mp (hs₁.symm.trans hs')
  exact hagree.1

/-- A window of two rows. -/
def twoRows : WindowShape := ⟨1, 2, .bgrResv8BitPerColor, by decide⟩

/-- The lower row is moved to the upper one. -/
def scrollUp : WindowCall twoRows :=
  .move ⟨0, 0⟩ ⟨⟨0, 1⟩, ⟨1, 1⟩⟩ ⟨by decide, by decide⟩ ⟨by decide, by decide, by decide, by decide⟩
    ⟨by decide, by decide, by decide, by decide⟩

/-- A pixel of the lower row. -/
def writeBelow (c : PixelColor) : WindowCall twoRows := .write ⟨0, 1⟩ c (by decide)

/-- A new window scrolls. -/
theorem agree_iff_new :
    Along PixelCopies.perform PixelCopies.StaysAgreed PixelCopies.new [scrollUp, writeBelow ⟨255, 0, 0⟩] :=
  (agree_iff (PixelCopies.agree_iff_same.mpr (PixelCopies.same_new twoRows)) _).mpr
    ⟨⟨.inr (.inr fun heq => absurd heq (by decide)), fun _ _ => rfl⟩, fun _ _ => ⟨trivial, fun _ _ => trivial⟩⟩

/-- A red pixel is written, and scrolled up. -/
theorem scrolled_apart : PixelCopies.new.Agree twoRows ∧
    ¬ Along PixelCopies.perform PixelCopies.StaysAgreed PixelCopies.new [writeBelow ⟨255, 0, 0⟩, scrollUp] := by
  have hnew := PixelCopies.same_new twoRows
  refine ⟨PixelCopies.agree_iff_same.mpr hnew, ?_⟩
  rintro ⟨⟨s, hs, hagree⟩, hrest⟩
  have hcolors := ((hagree.1.staysAgreed_iff scrollUp).mp (hrest s hs).1).2 ⟨0, 0⟩ (by decide)
  obtain rfl := Option.some_inj.mp hs
  exact absurd hcolors (by decide)

end DuvuvurKernel
