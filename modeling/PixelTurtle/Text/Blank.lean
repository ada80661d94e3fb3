/-
PixelTurtle.Text.Blank — white space, and the cuts of a text that depend
on it.

* `Text.isBlank` is the Unicode property White_Space.
* `Text.pieces` cuts a text at every separator, keeping empty pieces.
* `Text.lines` cuts at line feeds; `Text.trim` and `Text.words` cut at
  blanks.

The program lexer has its own, smaller set of separators and does not use
this table.
-/
namespace PixelTurtle.Text

/-- Unicode White_Space. -/
def isBlank (c : Char) : Bool :=
  let n := c.toNat
  (0x09 ≤ n && n ≤ 0x0D) || n == 0x20 || n == 0x85 || n == 0xA0 || n == 0x1680 ||
    (0x2000 ≤ n && n ≤ 0x200A) || n == 0x2028 || n == 0x2029 || n == 0x202F ||
    n == 0x205F || n == 0x3000

/-- The text between separators, in order. There is always one piece more
than there are separators. -/
def pieces (separates : Char → Bool) : List Char → List (List Char)
  | [] => [[]]
  | c :: rest =>
      if separates c then [] :: pieces separates rest
      else
        match pieces separates rest with
        | [] => [[c]]
        | piece :: others => (c :: piece) :: others

/-- Drop the blanks in front. -/
def trimStart (text : List Char) : List Char :=
  text.dropWhile isBlank

/-- Drop the blanks behind. -/
def trimEnd (text : List Char) : List Char :=
  (text.reverse.dropWhile isBlank).reverse

/-- Drop the blanks at both ends. -/
def trim (text : List Char) : List Char :=
  trimEnd (trimStart text)

/-- The words of a text: its longest stretches without a blank. -/
def words (text : List Char) : List (List Char) :=
  (pieces isBlank text).filter (fun piece => !piece.isEmpty)

/-- Take one carriage return off the end. -/
def dropReturn (line : List Char) : List Char :=
  if line.getLast? = some '\r' then line.dropLast else line

/-- The lines that the pieces between line feeds stand for: a terminated
line loses its carriage return, and nothing after the last line feed is
no line. -/
def terminated : List (List Char) → List (List Char)
  | [] => []
  | [[]] => []
  | [last] => [last]
  | line :: rest => dropReturn line :: terminated rest

/-- The lines of a text, each ended by a line feed or by the end. -/
def lines (text : List Char) : List (List Char) :=
  terminated (pieces (· == '\n') text)

/-- Cutting gives at least one piece. -/
theorem pieces_ne_nil (separates : Char → Bool) (text : List Char) :
    pieces separates text ≠ [] := by
  cases text with
  | nil => simp [pieces]
  | cons c rest =>
      unfold pieces
      split
      · simp
      · split <;> simp

/-- There is one piece more than there are separators. -/
theorem length_pieces (separates : Char → Bool) (text : List Char) :
    (pieces separates text).length = text.countP separates + 1 := by
  induction text with
  | nil => rfl
  | cons c rest ih =>
      unfold pieces
      by_cases h : separates c = true
      · simp [h, ih]
      · cases hp : pieces separates rest with
        | nil => exact absurd hp (pieces_ne_nil separates rest)
        | cons piece others => simp_all

end PixelTurtle.Text
