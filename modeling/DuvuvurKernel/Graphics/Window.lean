import DuvuvurKernel.Graphics.FrameBuffer

/-!
# Windows

`window.cpp`: the contents of a window and `Window::DrawTo`.

## The model

A window keeps its pixels twice: in `data_`, which `At` reads and a transparent window
is drawn from, and in a shadow buffer in the format of the screen, which an opaque
window is copied from. What is drawn into a window (titles, text, an application's
pictures) is not modelled: the contents are arbitrary, and `Activate` and
`Deactivate`, which a subclass overrides to redraw its title, are arbitrary functions
of them. None of these changes the size, the format or the transparent colour.

**Result.** `DrawTo` paints the pixels of the window over the destination, clipped to
the area if the window is opaque, and not clipped if it is not (`pixels_drawTo`).
-/

namespace DuvuvurKernel

open Lib.Painting

/-- The two copies of a window's pixels. -/
structure Contents where
  /-- `data_`. -/
  data : Vector2D → PixelColor
  /-- The pixels of `shadow_buffer_`. -/
  shadow : Vector2D → PixelColor

/-- `Window`. -/
structure Window where
  /-- `width_`. -/
  width : ℕ
  /-- `height_`. -/
  height : ℕ
  /-- The pixel format of `shadow_buffer_`. -/
  shadowFormat : PixelFormat
  /-- `transparent_color_`. -/
  transparentColor : Option PixelColor
  contents : Contents
  /-- What the virtual `Activate` makes of the contents. -/
  activate : Contents → Contents
  /-- What the virtual `Deactivate` makes of the contents. -/
  deactivate : Contents → Contents

namespace Window

/-- `Size`. -/
def size (w : Window) : Vector2D := ⟨w.width, w.height⟩

/-- `shadow_buffer_`. -/
def shadowBuffer (w : Window) : FrameBuffer :=
  ⟨w.width, w.height, w.shadowFormat, w.contents.shadow⟩

/-- `At`. -/
def at' (w : Window) (pos : Vector2D) : PixelColor := w.contents.data pos

/-- The positions that the loops of `DrawTo` visit, for a destination of the given size. -/
def visited (w : Window) (pos dstSize : Vector2D) : List Vector2D :=
  (Int.range (max 0 (0 - pos.y)) (min w.height (dstSize.y - pos.y))).flatMap fun y =>
    (Int.range (max 0 (0 - pos.x)) (min w.width (dstSize.x - pos.x))).map fun x => pos + ⟨x, y⟩

/-- `Window::DrawTo`. -/
def drawTo (w : Window) (dst : FrameBuffer) (pos : Vector2D) (area : Rectangle) : FrameBuffer :=
  match w.transparentColor with
  | none =>
    let windowArea : Rectangle := ⟨pos, w.size⟩
    let intersection := area &&& windowArea
    dst.copied intersection.pos w.shadowBuffer ⟨intersection.pos - pos, intersection.size⟩
  | some tc =>
    let pixels := paintPoints dst.pixels (w.visited pos dst.size) fun p =>
      let c := w.at' (p - pos)
      if c ≠ tc then some c else none
    { dst with pixels := pixels }

/-! ### What is seen of a window -/

/-- The colour of a window placed at `pos`, where it covers the screen non-transparently. -/
def colorAt (w : Window) (pos p : Vector2D) : Option PixelColor :=
  if (⟨pos, w.size⟩ : Rectangle).Contains p then
    match w.transparentColor with
    | none => some (w.contents.shadow (p - pos))
    | some tc => if w.at' (p - pos) ≠ tc then some (w.at' (p - pos)) else none
  else none

/-- What `DrawTo` draws of the window: an opaque one is clipped to the area. -/
def drawnAt (w : Window) (pos : Vector2D) (area : Rectangle) (p : Vector2D) : Option PixelColor :=
  if w.transparentColor = none ∧ ¬ area.Contains p then none else w.colorAt pos p

theorem colorAt_eq_none {w : Window} {pos p : Vector2D}
    (h : ¬ (⟨pos, w.size⟩ : Rectangle).Contains p) : w.colorAt pos p = none := if_neg h

/-- An opaque window covers every position in it. -/
theorem colorAt_ne_none {w : Window} {pos p : Vector2D} (ho : w.transparentColor = none)
    (h : (⟨pos, w.size⟩ : Rectangle).Contains p) : w.colorAt pos p ≠ none := by
  unfold colorAt
  rw [if_pos h, ho]
  exact Option.some_ne_none _

theorem drawnAt_of_contains {w : Window} {pos : Vector2D} {area : Rectangle} {p : Vector2D}
    (h : area.Contains p) : w.drawnAt pos area p = w.colorAt pos p :=
  if_neg fun hn => hn.2 h

theorem mem_visited {w : Window} {pos p : Vector2D} {dst : FrameBuffer} (h : dst.outline.Contains p) :
    p ∈ w.visited pos dst.size ↔ (⟨pos, w.size⟩ : Rectangle).Contains p := by
  simp only [FrameBuffer.outline, Rectangle.Contains] at h
  simp only [visited, List.mem_flatMap, List.mem_map, Int.mem_range_iff, Rectangle.Contains, size]
  constructor
  · rintro ⟨y, hy, x, hx, rfl⟩
    simp only [Vector2D.add_x, Vector2D.add_y]
    omega
  · intro hp
    refine ⟨p.y - pos.y, by omega, p.x - pos.x, by omega, ?_⟩
    ext
    · simp only [Vector2D.add_x]
      omega
    · simp only [Vector2D.add_y]
      omega

/-! ### `DrawTo` -/

/-- `DrawTo` changes nothing but pixels. -/
theorem frame_drawTo (w : Window) (dst : FrameBuffer) (pos : Vector2D) (area : Rectangle) :
    (w.drawTo dst pos area).outline = dst.outline ∧
      (w.drawTo dst pos area).pixelFormat = dst.pixelFormat := by
  unfold drawTo
  cases w.transparentColor with
  | none => exact ⟨FrameBuffer.outline_copied .., FrameBuffer.pixelFormat_copied ..⟩
  | some tc => exact ⟨rfl, rfl⟩

/-- **What `DrawTo` draws.** -/
theorem pixels_drawTo {w : Window} {dst : FrameBuffer} (hf : dst.pixelFormat = w.shadowFormat)
    (pos : Vector2D) (area : Rectangle) {p : Vector2D} (hp : dst.outline.Contains p) :
    (w.drawTo dst pos area).pixels p = (w.drawnAt pos area p).getD (dst.pixels p) := by
  unfold drawTo drawnAt colorAt
  cases ht : w.transparentColor with
  | none =>
    -- The shifts of `Copy` and of `DrawTo` cancel: the pixel at `p` comes from `p - pos`.
    have hshift : p - ((area &&& ⟨pos, w.size⟩).pos - ((area &&& ⟨pos, w.size⟩).pos - pos)) =
        p - pos := by
      ext
      · simp only [Vector2D.sub_x]
        omega
      · simp only [Vector2D.sub_y]
        omega
    have hout : w.shadowBuffer.outline.Contains (p - pos) ↔
        (⟨pos, w.size⟩ : Rectangle).Contains p := by
      simp only [FrameBuffer.outline, FrameBuffer.size, shadowBuffer, Rectangle.Contains, size,
        Vector2D.sub_x, Vector2D.sub_y]
      constructor
      · intro h
        omega
      · intro h
        omega
    have hinter := Rectangle.contains_inter area ⟨pos, w.size⟩ p
    simp only [@FrameBuffer.pixels_copied dst w.shadowBuffer hf, FrameBuffer.contains_copyArea,
      hshift, hout, hinter, hp, true_and]
    by_cases ha : area.Contains p
    · by_cases hw : (⟨pos, w.size⟩ : Rectangle).Contains p
      · simp [ha, hw, shadowBuffer]
      · simp [hw]
    · simp [ha]
  | some tc =>
    simp only [paintPoints_apply, mem_visited hp]
    by_cases hw : (⟨pos, w.size⟩ : Rectangle).Contains p
    · simp [hw]
    · simp [hw]

end Window

end DuvuvurKernel
