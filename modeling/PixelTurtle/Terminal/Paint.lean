/-
PixelTurtle.Terminal.Paint — canvases and emphasis in terminal colors.

A pixel is two columns of its color, the cursor is drawn as brackets.
-/
import PixelTurtle.Machine
import PixelTurtle.Text.Decimal

namespace PixelTurtle.Terminal

/-- A text between control sequences that switch a style on and off. -/
def styled (codes : String) (text : String) : String :=
  "\x1b[" ++ codes ++ "m" ++ text ++ "\x1b[0m"

/-- Text in bold. -/
def bold (text : String) : String :=
  styled "1" text

/-- The background code of a color. -/
def background : Color → Nat
  | .white => 47
  | .black => 40
  | .red => 41
  | .green => 42
  | .blue => 44
  | .cyan => 46
  | .magenta => 45
  | .yellow => 43

/-- The foreground code that can be seen on a color. -/
def foreground : Color → Nat
  | .black => 37
  | _ => 30

/-- A pixel, with or without the cursor. -/
def paintPixel (color : Color) (underCursor : Bool) : String :=
  let back := toString (background color)
  if underCursor then styled (back ++ ";" ++ toString (foreground color)) "[]"
  else styled back "  "

/-- A row of pixels. -/
def paintRow (canvas : Canvas) (cursor : Option Cursor) (y : Nat) : String :=
  String.join ((List.range canvas.width).map (fun x =>
    paintPixel (canvas.pixelAt (canvas.offset x y)) (cursor == some ⟨x, y⟩))) ++ "\n"

/-- A canvas, top row first. A cursor outside is not drawn. -/
def paint (canvas : Canvas) (cursor : Option Cursor) : String :=
  String.join ((List.range canvas.height).reverse.map (paintRow canvas cursor))

/-- The canvas of a machine with its cursor. -/
def paintMachine (m : Machine) : String :=
  paint m.canvas (some m.cursor)

/-- Clear the terminal and show a machine, with the rate it runs at. -/
def redraw (m : Machine) (rate : Option Float) : String :=
  "\x1b[2J\x1b[H" ++ paintMachine m ++ s!"line {m.line + 1}" ++
  (match rate with
    | some rate => "  " ++ Text.oneDecimal rate ++ " IPS"
    | none => "") ++
  "\n"

end PixelTurtle.Terminal
