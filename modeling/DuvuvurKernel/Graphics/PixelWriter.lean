import Mathlib.Data.Int.Notation
import Mathlib.Order.Basic

/-!
# Drawing pixel by pixel

`graphics.hpp` and `graphics.cpp`: positions, colours, the interface `PixelWriter`,
and `FillRectangle`, which draws through it.

## The model

A `PixelWriter` acts on the state `σ` of whatever it draws on. What a drawing
function does is a list of positions, in the order of its loops, each written in one
colour (`writeAll`).

An `int` is an integer here. The sums the drawing functions form are positions of
pixels, and one that leaves the range of `int` is outside every window.
-/

namespace DuvuvurKernel

/-- `Vector2D<int>`. -/
@[ext]
structure Vector2D where
  x : ℤ
  y : ℤ
  deriving DecidableEq, Repr

instance : Add Vector2D := ⟨fun a b => ⟨a.x + b.x, a.y + b.y⟩⟩

instance : Sub Vector2D := ⟨fun a b => ⟨a.x - b.x, a.y - b.y⟩⟩

@[simp] theorem Vector2D.add_x (a b : Vector2D) : (a + b).x = a.x + b.x := rfl

@[simp] theorem Vector2D.add_y (a b : Vector2D) : (a + b).y = a.y + b.y := rfl

/-- `PixelColor`. -/
structure PixelColor where
  r : UInt8
  g : UInt8
  b : UInt8
  deriving DecidableEq, Repr

/-- `ToColor`. -/
def toColor (c : UInt32) : PixelColor := ⟨(c >>> 16).toUInt8, (c >>> 8).toUInt8, c.toUInt8⟩

/-- `PixelWriter`, drawing on a state of type `σ`. -/
structure PixelWriter (σ : Type*) where
  /-- `Write`. -/
  write : σ → Vector2D → PixelColor → σ

namespace PixelWriter

variable {σ : Type*} (w : PixelWriter σ)

/-- One `Write` for each position of a list, in the same colour. -/
def writeAll (s : σ) (ps : List Vector2D) (c : PixelColor) : σ :=
  ps.foldl (fun s p => w.write s p c) s

/-- The positions of a rectangle, row by row. -/
def rectangle (pos size : Vector2D) : List Vector2D :=
  (List.range size.y.toNat).flatMap fun dy =>
    (List.range size.x.toNat).map fun dx => pos + ⟨dx, dy⟩

/-- `FillRectangle`. -/
def fillRectangle (s : σ) (pos size : Vector2D) (c : PixelColor) : σ :=
  w.writeAll s (rectangle pos size) c

end PixelWriter

end DuvuvurKernel
