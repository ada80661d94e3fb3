/-
PixelTurtle.Canvas — the grid of pixels a program draws on.

Pixels are kept bottom row first: the pixel in column `x` of row `y`,
rows counted up from the bottom, has offset `y * width + x`. A canvas has
at least one pixel, and its pixels can be counted in 64 bits; both facts
are part of the type.
-/
import PixelTurtle.Color
import PixelTurtle.Fault

namespace PixelTurtle

/-- A grid of pixels that is not empty. -/
structure Canvas where
  width : Nat
  height : Nat
  pixels : Array Color
  width_pos : 0 < width
  height_pos : 0 < height
  fits : width * height < UInt64.size
  size_pixels : pixels.size = width * height
  deriving DecidableEq

/-- Why there is no such canvas. -/
inductive CanvasFlaw where
  | empty
  | tooLarge (width height : Nat)
  | wrongCount (width height found : Nat)
  | invalidPixel (line : Nat) (letter : Char)
  | unevenRow (line found expected : Nat)
  deriving DecidableEq

namespace CanvasFlaw

/-- The wording of a flaw. -/
def message : CanvasFlaw → String
  | empty => "canvas is empty"
  | tooLarge width height => s!"{width}x{height} is too large"
  | wrongCount width height found =>
      s!"expected {width * height} pixels for {width}x{height}, found {found}"
  | invalidPixel _ letter => "'" ++ String.singleton letter ++ "' is not a valid pixel"
  | unevenRow _ found expected => s!"row is {found} pixels wide, expected {expected}"

/-- The line of a drawing that a flaw is on. -/
def line? : CanvasFlaw → Option Nat
  | invalidPixel line _ => some line
  | unevenRow line _ _ => some line
  | _ => none

/-- The fault that a flaw is. -/
def toFault (f : CanvasFlaw) : Fault where
  code := .invalidCanvas
  line := f.line?
  word := none
  detail := f.message

end CanvasFlaw

namespace Canvas

/-- The canvas of given pixels, bottom row first. -/
def ofPixels (width height : Nat) (pixels : Array Color) : Except CanvasFlaw Canvas :=
  if hempty : width = 0 ∨ height = 0 then .error .empty
  else if hlarge : UInt64.size ≤ width * height then .error (.tooLarge width height)
  else if hcount : pixels.size = width * height then
    .ok {
      width := width
      height := height
      pixels := pixels
      width_pos := by omega
      height_pos := by omega
      fits := by omega
      size_pixels := hcount }
  else .error (.wrongCount width height pixels.size)

/-- How many pixels a canvas of a size has, if there is one. -/
def pixelCount (width height : Nat) : Except CanvasFlaw Nat :=
  if width = 0 ∨ height = 0 then .error .empty
  else if UInt64.size ≤ width * height then .error (.tooLarge width height)
  else .ok (width * height)

/-- A canvas of one color. -/
def filled (width height : Nat) (color : Color) : Except CanvasFlaw Canvas :=
  match pixelCount width height with
  | .error flaw => .error flaw
  | .ok count => ofPixels width height (Array.replicate count color)

/-- An untouched canvas. -/
def blank (width height : Nat) : Except CanvasFlaw Canvas :=
  filled width height .white

/-- The pixel at an offset. -/
def pixelAt (c : Canvas) (offset : Nat) : Color :=
  c.pixels.getD offset .white

/-- Paint the pixel at an offset. -/
def put : Canvas → Nat → Color → Canvas
  | ⟨width, height, pixels, width_pos, height_pos, fits, size_pixels⟩, offset, color =>
      ⟨width, height, pixels.setIfInBounds offset color, width_pos, height_pos, fits,
        by simpa using size_pixels⟩

/-- Where a cell is kept. -/
def offset (c : Canvas) (x y : Nat) : Nat :=
  y * c.width + x

/-- The pixel in a cell of the canvas. -/
def get? (c : Canvas) (x y : Nat) : Option Color :=
  if x < c.width ∧ y < c.height then some (c.pixelAt (c.offset x y)) else none

/-- Paint a cell. Gives the canvas and the color that was replaced. A cell
outside is left alone, and no color is replaced. -/
def set (c : Canvas) (x y : Nat) (color : Color) : Canvas × Option Color :=
  if x < c.width ∧ y < c.height then
    (c.put (c.offset x y) color, some (c.pixelAt (c.offset x y)))
  else (c, none)

@[simp] theorem width_put (c : Canvas) (offset : Nat) (color : Color) :
    (c.put offset color).width = c.width := rfl

@[simp] theorem height_put (c : Canvas) (offset : Nat) (color : Color) :
    (c.put offset color).height = c.height := rfl

/-- The offset of a cell of the canvas is that of a pixel. -/
theorem offset_lt (c : Canvas) {x y : Nat} (hx : x < c.width) (hy : y < c.height) :
    c.offset x y < c.pixels.size := by
  rw [c.size_pixels, offset]
  calc
    y * c.width + x < y * c.width + c.width := by omega
    _ = (y + 1) * c.width := by rw [Nat.succ_mul]
    _ ≤ c.height * c.width := Nat.mul_le_mul_right _ hy
    _ = c.width * c.height := Nat.mul_comm _ _

end Canvas

end PixelTurtle
