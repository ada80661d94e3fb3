/-
PixelTurtle.Canvas.Drawing — a canvas as text.

A drawing has one line of letters for each row, top row first. When one
is read, blank lines are skipped and blanks around a row are dropped; the
first line with an unknown letter or of another width than the first row
is the flaw.
-/
import PixelTurtle.Canvas
import PixelTurtle.Text.Blank

namespace PixelTurtle.Canvas

/-- The pixels of a row, from the left. -/
def row (c : Canvas) (y : Nat) : List Color :=
  (List.range c.width).map (fun x => c.pixelAt (c.offset x y))

/-- The rows, from the top. -/
def rows (c : Canvas) : List (List Color) :=
  (List.range c.height).reverse.map c.row

/-- The letters of a row, ended by a line feed. -/
def drawRow (row : List Color) : List Char :=
  row.map Color.letter ++ ['\n']

/-- Draw a canvas. -/
def toText (c : Canvas) : String :=
  String.ofList (c.rows.flatMap drawRow)

/-- Read the letters of a row that stands on a line. -/
def readRow (line : Nat) : List Char → Except CanvasFlaw (List Color)
  | [] => .ok []
  | letter :: rest =>
      match Color.ofLetter? letter with
      | none => .error (.invalidPixel line letter)
      | some color => (readRow line rest).map (color :: ·)

/-- Read rows from a line on. They have to be as wide as the rows before,
if there are any. -/
def readRows (line : Nat) (width : Option Nat) :
    List (List Char) → Except CanvasFlaw (List (List Color))
  | [] => .ok []
  | text :: rest =>
      match Text.trim text with
      | [] => readRows (line + 1) width rest
      | letters =>
          match readRow line letters with
          | .error flaw => .error flaw
          | .ok row =>
              let expected := width.getD row.length
              if row.length = expected then
                (readRows (line + 1) (some expected) rest).map (row :: ·)
              else .error (.unevenRow line row.length expected)

/-- Read a drawing. -/
def ofText (text : String) : Except CanvasFlaw Canvas :=
  match readRows 0 none (Text.lines text.toList) with
  | .error flaw => .error flaw
  | .ok rows =>
      ofPixels (rows.head?.elim 0 List.length) rows.length rows.reverse.flatten.toArray

end PixelTurtle.Canvas
