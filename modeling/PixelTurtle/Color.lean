/-
PixelTurtle.Color — the eight pixel colors, their names and the letters
that stand for them in a drawn canvas.

A program never tells two colored pixels apart: branching looks at one
bit, white or not white (`Color.isWhite`).
-/
namespace PixelTurtle

/-- The value of one pixel. White is the color of an untouched pixel. -/
inductive Color where
  | white
  | black
  | red
  | green
  | blue
  | cyan
  | magenta
  | yellow
  deriving DecidableEq, Inhabited

namespace Color

/-- Every color, in palette order. -/
def all : List Color :=
  [white, black, red, green, blue, cyan, magenta, yellow]

/-- The position of a color in palette order. -/
def rank : Color → Nat
  | white => 0
  | black => 1
  | red => 2
  | green => 3
  | blue => 4
  | cyan => 5
  | magenta => 6
  | yellow => 7

/-- The one bit a program can see of a pixel. -/
def isWhite : Color → Bool
  | white => true
  | _ => false

/-- The word for a color in messages and listings. -/
def name : Color → String
  | white => "white"
  | black => "black"
  | red => "red"
  | green => "green"
  | blue => "blue"
  | cyan => "cyan"
  | magenta => "magenta"
  | yellow => "yellow"

/-- The letter a color is drawn with. -/
def letter : Color → Char
  | white => '.'
  | black => '#'
  | red => 'r'
  | green => 'g'
  | blue => 'b'
  | cyan => 'c'
  | magenta => 'm'
  | yellow => 'y'

/-- The color a letter stands for. White and black may also be spelled
`w` and `k`. -/
def ofLetter? : Char → Option Color
  | '.' | 'w' => some white
  | '#' | 'k' => some black
  | 'r' => some red
  | 'g' => some green
  | 'b' => some blue
  | 'c' => some cyan
  | 'm' => some magenta
  | 'y' => some yellow
  | _ => none

/-- A drawn letter reads back as its color. -/
@[simp] theorem ofLetter?_letter (c : Color) : ofLetter? c.letter = some c := by
  cases c <;> rfl

/-- White is the only color a program sees as white. -/
theorem isWhite_iff (c : Color) : c.isWhite = true ↔ c = white := by
  cases c <;> simp [isWhite]

end Color

end PixelTurtle
