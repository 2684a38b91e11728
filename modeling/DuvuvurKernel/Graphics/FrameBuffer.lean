import DuvuvurKernel.Error
import DuvuvurKernel.Graphics.PixelWriter
import DuvuvurKernel.Lib.Painting
import Mathlib.Data.Int.Range

/-!
# Frame buffers

`frame_buffer.cpp` and the rectangles of `graphics.hpp`: a frame buffer, the
intersection of two rectangles, and `FrameBuffer::Copy`, with which everything on the
screen is drawn.

## The model

A frame buffer is its size, its pixel format and the pixels at its positions. The
source finds the bytes of the pixel at `pos` at `pixels_per_scan_line * pos.y + pos.x`;
two positions inside the buffer have different bytes, since a scan line is as long as
the buffer is wide at least. A row that `memcpy` copies is copied pixel by pixel.

**Result.** `Copy` changes the positions that lie in the destination, in the shifted
source area and in the shifted source, and no other (`pixels_copied`).
-/

namespace DuvuvurKernel

open Lib.Painting

@[simp] theorem Vector2D.sub_x (a b : Vector2D) : (a - b).x = a.x - b.x := rfl

@[simp] theorem Vector2D.sub_y (a b : Vector2D) : (a - b).y = a.y - b.y := rfl

/-- `ElementMax`. -/
def elementMax (a b : Vector2D) : Vector2D := ⟨max a.x b.x, max a.y b.y⟩

/-- `ElementMin`. -/
def elementMin (a b : Vector2D) : Vector2D := ⟨min a.x b.x, min a.y b.y⟩

/-- `Rectangle<int>`. -/
structure Rectangle where
  pos : Vector2D
  size : Vector2D
  deriving DecidableEq, Repr

namespace Rectangle

/-- `operator&`. Two rectangles that touch have an intersection with an empty side; two
that do not have the empty one at the origin. -/
def inter (a b : Rectangle) : Rectangle :=
  let aEnd := a.pos + a.size
  let bEnd := b.pos + b.size
  if aEnd.x < b.pos.x ∨ aEnd.y < b.pos.y ∨ bEnd.x < a.pos.x ∨ bEnd.y < a.pos.y then
    ⟨⟨0, 0⟩, ⟨0, 0⟩⟩
  else
    let newPos := elementMax a.pos b.pos
    ⟨newPos, elementMin aEnd bEnd - newPos⟩

instance : AndOp Rectangle := ⟨inter⟩

/-- A position lies in a rectangle. -/
def Contains (r : Rectangle) (p : Vector2D) : Prop :=
  r.pos.x ≤ p.x ∧ p.x < r.pos.x + r.size.x ∧ r.pos.y ≤ p.y ∧ p.y < r.pos.y + r.size.y

instance (r : Rectangle) (p : Vector2D) : Decidable (r.Contains p) := by
  unfold Contains
  infer_instance

theorem contains_inter (a b : Rectangle) (p : Vector2D) :
    (a &&& b).Contains p ↔ a.Contains p ∧ b.Contains p := by
  have h : a &&& b = a.inter b := rfl
  rw [h]
  simp only [inter]
  split
  next hd =>
    simp only [Contains, Vector2D.add_x, Vector2D.add_y] at hd ⊢
    constructor
    · intro hp
      omega
    · intro hp
      omega
  next hd =>
    simp only [Contains, elementMax, elementMin, Vector2D.sub_x, Vector2D.sub_y, Vector2D.add_x,
      Vector2D.add_y]
    constructor
    · intro hp
      omega
    · intro hp
      omega

/-- The sides of an intersection are not negative if those of the rectangles are not. -/
theorem size_inter_nonneg {a b : Rectangle} (ha : 0 ≤ a.size.x ∧ 0 ≤ a.size.y)
    (hb : 0 ≤ b.size.x ∧ 0 ≤ b.size.y) : 0 ≤ (a &&& b).size.x ∧ 0 ≤ (a &&& b).size.y := by
  have h : a &&& b = a.inter b := rfl
  rw [h]
  simp only [inter]
  split
  next hd => exact ⟨le_rfl, le_rfl⟩
  next hd =>
    simp only [Vector2D.add_x, Vector2D.add_y] at hd
    simp only [elementMax, elementMin, Vector2D.sub_x, Vector2D.sub_y, Vector2D.add_x,
      Vector2D.add_y]
    omega

end Rectangle

theorem PixelWriter.mem_rectangle (r : Rectangle) (p : Vector2D) :
    p ∈ rectangle r.pos r.size ↔ r.Contains p := by
  simp only [rectangle, List.mem_flatMap, List.mem_map, List.mem_range, Rectangle.Contains]
  constructor
  · rintro ⟨dy, hy, dx, hx, rfl⟩
    simp only [Vector2D.add_x, Vector2D.add_y]
    omega
  · rintro ⟨h1, h2, h3, h4⟩
    refine ⟨(p.y - r.pos.y).toNat, by omega, (p.x - r.pos.x).toNat, by omega, ?_⟩
    ext
    · simp only [Vector2D.add_x]
      omega
    · simp only [Vector2D.add_y]
      omega

/-- `PixelFormat`. -/
inductive PixelFormat where
  | rgbResv8BitPerColor
  | bgrResv8BitPerColor
  deriving DecidableEq, Repr

/-- `FrameBuffer`. -/
structure FrameBuffer where
  /-- `horizontal_resolution`. -/
  width : ℕ
  /-- `vertical_resolution`. -/
  height : ℕ
  /-- `pixel_format`. -/
  pixelFormat : PixelFormat
  /-- The pixels, by position. -/
  pixels : Vector2D → PixelColor

namespace FrameBuffer

/-- `FrameBufferSize`. -/
def size (fb : FrameBuffer) : Vector2D := ⟨fb.width, fb.height⟩

/-- The positions of the frame buffer. -/
def outline (fb : FrameBuffer) : Rectangle := ⟨⟨0, 0⟩, fb.size⟩

/-- The area of the destination that `Copy` writes. -/
def copyArea (dst : FrameBuffer) (dstPos : Vector2D) (src : FrameBuffer) (srcArea : Rectangle) :
    Rectangle :=
  let srcAreaShifted : Rectangle := ⟨dstPos, srcArea.size⟩
  let srcOutline : Rectangle := ⟨dstPos - srcArea.pos, src.size⟩
  dst.outline &&& srcOutline &&& srcAreaShifted

/-- `FrameBuffer::Copy`. -/
def copy (dst : FrameBuffer) (dstPos : Vector2D) (src : FrameBuffer) (srcArea : Rectangle) :
    Except Error FrameBuffer :=
  if dst.pixelFormat ≠ src.pixelFormat then
    .error .unknownPixelFormat
  else
    let area := dst.copyArea dstPos src srcArea
    -- The pixel at `p` comes from the pixel at `src_start_pos + (p - copy_area.pos)`.
    let srcStartPos := area.pos - (dstPos - srcArea.pos)
    let pixels := paintPoints dst.pixels (PixelWriter.rectangle area.pos area.size)
      fun p => some (src.pixels (srcStartPos + (p - area.pos)))
    .ok { dst with pixels := pixels }

/-- `Copy` at the callers, which drop the error. -/
def copied (dst : FrameBuffer) (dstPos : Vector2D) (src : FrameBuffer) (srcArea : Rectangle) :
    FrameBuffer :=
  match dst.copy dstPos src srcArea with
  | .ok fb => fb
  | .error _ => dst

/-- No row that `Copy` copies has a negative length. -/
theorem copyArea_size_nonneg {dst : FrameBuffer} {dstPos : Vector2D} {src : FrameBuffer}
    {srcArea : Rectangle} (h : 0 ≤ srcArea.size.x ∧ 0 ≤ srcArea.size.y) :
    0 ≤ (dst.copyArea dstPos src srcArea).size.x ∧
      0 ≤ (dst.copyArea dstPos src srcArea).size.y := by
  have hsize : ∀ fb : FrameBuffer, 0 ≤ fb.size.x ∧ 0 ≤ fb.size.y := fun fb =>
    ⟨Int.natCast_nonneg _, Int.natCast_nonneg _⟩
  refine Rectangle.size_inter_nonneg (Rectangle.size_inter_nonneg ?_ ?_) h
  · exact hsize dst
  · exact hsize src

theorem contains_copyArea (dst : FrameBuffer) (dstPos : Vector2D) (src : FrameBuffer)
    (srcArea : Rectangle) (p : Vector2D) :
    (dst.copyArea dstPos src srcArea).Contains p ↔
      dst.outline.Contains p ∧ src.outline.Contains (p - (dstPos - srcArea.pos)) ∧
        (⟨dstPos, srcArea.size⟩ : Rectangle).Contains p := by
  simp only [copyArea, Rectangle.contains_inter, and_assoc]
  refine and_congr_right fun _ => and_congr_left fun _ => ?_
  simp only [Rectangle.Contains, outline, Vector2D.sub_x, Vector2D.sub_y]
  constructor
  · intro hp
    omega
  · intro hp
    omega

@[simp] theorem width_copied (dst : FrameBuffer) (dstPos : Vector2D) (src : FrameBuffer)
    (srcArea : Rectangle) : (dst.copied dstPos src srcArea).width = dst.width := by
  simp only [copied, copy]
  split_ifs <;> rfl

@[simp] theorem height_copied (dst : FrameBuffer) (dstPos : Vector2D) (src : FrameBuffer)
    (srcArea : Rectangle) : (dst.copied dstPos src srcArea).height = dst.height := by
  simp only [copied, copy]
  split_ifs <;> rfl

@[simp] theorem pixelFormat_copied (dst : FrameBuffer) (dstPos : Vector2D) (src : FrameBuffer)
    (srcArea : Rectangle) : (dst.copied dstPos src srcArea).pixelFormat = dst.pixelFormat := by
  simp only [copied, copy]
  split_ifs <;> rfl

@[simp] theorem outline_copied (dst : FrameBuffer) (dstPos : Vector2D) (src : FrameBuffer)
    (srcArea : Rectangle) : (dst.copied dstPos src srcArea).outline = dst.outline := by
  simp only [outline, size, width_copied, height_copied]

/-- `Copy` between pixel formats copies nothing. -/
theorem copied_of_ne {dst src : FrameBuffer} (h : dst.pixelFormat ≠ src.pixelFormat) (dstPos : Vector2D)
    (srcArea : Rectangle) : dst.copied dstPos src srcArea = dst := by
  rw [copied, copy, if_pos h]

/-- **What `Copy` writes.** -/
theorem pixels_copied {dst src : FrameBuffer} (h : dst.pixelFormat = src.pixelFormat)
    (dstPos : Vector2D) (srcArea : Rectangle) (p : Vector2D) :
    (dst.copied dstPos src srcArea).pixels p =
      if (dst.copyArea dstPos src srcArea).Contains p then
        src.pixels (p - (dstPos - srcArea.pos))
      else dst.pixels p := by
  have hsrc : (dst.copyArea dstPos src srcArea).pos - (dstPos - srcArea.pos) +
      (p - (dst.copyArea dstPos src srcArea).pos) = p - (dstPos - srcArea.pos) := by
    ext
    · simp only [Vector2D.add_x, Vector2D.sub_x]
      omega
    · simp only [Vector2D.add_y, Vector2D.sub_y]
      omega
  simp only [copied, copy, h, ne_eq, not_true_eq_false, if_false, paintPoints_apply,
    PixelWriter.mem_rectangle, hsrc, Option.getD_some]

end FrameBuffer

end DuvuvurKernel
