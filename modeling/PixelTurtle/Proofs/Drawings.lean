/-
PixelTurtle.Proofs.Drawings — a canvas that is drawn reads back.

A drawing has its rows top row first, each with a line feed behind it. Reading
cuts it into lines, drops blank lines and blanks around a row, and turns the
rows over again.

* `Text.lines_append_lineFeed`, `Text.trim_of_forall` — a line that holds no
  blank is cut off and kept as it is.
* `Canvas.flatten_rows` — the rows of a canvas, bottom row first, are its pixels.
* `Canvas.readRows_letters` — the letters of rows of one width are read as the
  rows.
* `Canvas.ofText_toText` — the three together, and which letter stands where.
-/
import PixelTurtle.Canvas.Drawing
import Mathlib.Data.List.Basic

namespace PixelTurtle

/-! ## Lines and blanks -/

namespace Text

theorem pieces_append_separator {separates : Char → Bool} {piece : List Char}
    (h : ∀ c ∈ piece, separates c = false) {c : Char} (hc : separates c = true)
    (rest : List Char) :
    pieces separates (piece ++ c :: rest) = piece :: pieces separates rest := by
  induction piece with
  | nil => simp [pieces, hc]
  | cons first piece ih =>
    obtain ⟨hfirst, hpiece⟩ := List.forall_mem_cons.mp h
    rw [List.cons_append, pieces, ih hpiece, hfirst]
    rfl

/-- A line that ends with a line feed is the first line of a text. -/
theorem lines_append_lineFeed {line : List Char} (h : '\n' ∉ line) (rest : List Char) :
    lines (line ++ '\n' :: rest) = dropReturn line :: lines rest := by
  have hline : ∀ c ∈ line, (c == '\n') = false := by
    intro c hc
    rw [beq_eq_false_iff_ne]
    rintro rfl
    exact h hc
  rw [lines, pieces_append_separator hline (by rfl), lines]
  cases hrest : pieces (· == '\n') rest with
  | nil => exact absurd hrest (pieces_ne_nil _ _)
  | cons piece others => cases line <;> rfl

theorem dropWhile_isBlank {text : List Char} (h : ∀ c ∈ text, isBlank c = false) :
    text.dropWhile isBlank = text := by
  cases text with
  | nil => rfl
  | cons c rest => simp [h c List.mem_cons_self]

/-- A text without blanks has none around it. -/
theorem trim_of_forall {text : List Char} (h : ∀ c ∈ text, isBlank c = false) :
    trim text = text := by
  have hreverse : ∀ c ∈ text.reverse, isBlank c = false :=
    fun c hc => h c (List.mem_reverse.mp hc)
  rw [trim, trimStart, dropWhile_isBlank h, trimEnd, dropWhile_isBlank hreverse,
    List.reverse_reverse]

end Text

theorem Color.isBlank_letter (c : Color) : Text.isBlank c.letter = false := by
  cases c <;> rfl

/-! ## Letters of rows -/

namespace Canvas

/-- A row as it is drawn, without its line feed. -/
def letters (row : List Color) : List Char :=
  row.map Color.letter

variable {row : List Color} {rows : List (List Color)} {width : Nat}

theorem isBlank_of_mem_letters {c : Char} (h : c ∈ letters row) : Text.isBlank c = false := by
  obtain ⟨color, -, rfl⟩ := List.mem_map.mp h
  exact color.isBlank_letter

theorem trim_letters (row : List Color) : Text.trim (letters row) = letters row :=
  Text.trim_of_forall fun _ hc => isBlank_of_mem_letters hc

theorem not_mem_letters {c : Char} (hc : Text.isBlank c = true) : c ∉ letters row := by
  intro hmem
  simp [isBlank_of_mem_letters hmem] at hc

/-- The lines of a drawing are its rows. -/
theorem lines_drawing (rows : List (List Color)) :
    Text.lines (rows.flatMap drawRow) = rows.map letters := by
  induction rows with
  | nil => rfl
  | cons row rest ih =>
    have hreturn : Text.dropReturn (letters row) = letters row := by
      rw [Text.dropReturn, if_neg]
      intro hlast
      exact not_mem_letters (by rfl) (List.mem_of_getLast? hlast)
    have hcons : (row :: rest).flatMap drawRow = letters row ++ '\n' :: rest.flatMap drawRow := by
      simp [drawRow, letters]
    rw [hcons, Text.lines_append_lineFeed (not_mem_letters (by rfl)), hreturn, ih, List.map_cons]

theorem readRow_letters (line : Nat) (row : List Color) :
    readRow line (letters row) = .ok row := by
  induction row with
  | nil => rfl
  | cons color rest ih =>
    rw [letters, List.map_cons, readRow, Color.ofLetter?_letter]
    dsimp only
    rw [← letters, ih]
    rfl

/-- The letters of rows of one width are read as the rows. -/
theorem readRows_letters (hwidth : 0 < width) (hrows : ∀ row ∈ rows, row.length = width)
    (line : Nat) {expected : Option Nat} (hexpected : expected = none ∨ expected = some width) :
    readRows line expected (rows.map letters) = .ok rows := by
  induction rows generalizing line expected with
  | nil => rfl
  | cons row rest ih =>
    obtain ⟨hrow, hrest⟩ := List.forall_mem_cons.mp hrows
    have hne : letters row ≠ [] := by
      rw [← List.length_pos_iff, letters, List.length_map, hrow]
      exact hwidth
    have hmatches : expected.getD row.length = width := by
      rcases hexpected with rfl | rfl
      · exact hrow
      · rfl
    rw [List.map_cons, readRows, trim_letters]
    split
    · next hnil => exact absurd hnil hne
    · rw [readRow_letters]
      dsimp only
      rw [hmatches, if_pos hrow, ih hrest (line + 1) (.inr rfl)]
      rfl

/-! ## Rows of a canvas -/

/-- The numbers below a product, row by row. -/
theorem flatten_range_mul {α : Type} (f : Nat → α) (width height : Nat) :
    ((List.range height).map fun y => (List.range width).map fun x => f (y * width + x)).flatten =
      (List.range (height * width)).map f := by
  induction height with
  | zero => simp
  | succ height ih =>
    rw [List.range_succ, List.map_append, List.flatten_append, ih, Nat.succ_mul, List.range_add,
      List.map_append]
    simp [Function.comp_def]

variable (c : Canvas)

theorem map_pixelAt : (List.range c.pixels.size).map c.pixelAt = c.pixels.toList := by
  refine List.ext_getElem (by simp) fun i hi hi' => ?_
  have hsize : i < c.pixels.size := by simpa using hi
  simp [pixelAt, hsize]

theorem rows_reverse : c.rows.reverse = (List.range c.height).map c.row := by
  rw [rows, List.map_reverse, List.reverse_reverse]

/-- The rows of a canvas, bottom row first, are its pixels. -/
theorem flatten_rows : c.rows.reverse.flatten = c.pixels.toList := by
  rw [rows_reverse, ← map_pixelAt, c.size_pixels, Nat.mul_comm]
  exact flatten_range_mul c.pixelAt c.width c.height

theorem length_rows : c.rows.length = c.height := by
  simp [rows]

theorem length_row {row : List Color} (h : row ∈ c.rows) : row.length = c.width := by
  obtain ⟨y, -, rfl⟩ := List.mem_map.mp h
  simp [Canvas.row]

theorem head?_rows : c.rows.head?.elim 0 List.length = c.width := by
  cases hrows : c.rows with
  | nil =>
    have hheight := c.length_rows
    rw [hrows, List.length_nil] at hheight
    exact absurd hheight.symm (Nat.ne_of_gt c.height_pos)
  | cons row rest => exact c.length_row (hrows ▸ List.mem_cons_self)

/-- Row `r` from the top is row `height - 1 - r` from the bottom. -/
theorem getElem?_rows {r : Nat} (hr : r < c.height) :
    c.rows[r]? = some (c.row (c.height - 1 - r)) := by
  rw [rows, List.getElem?_map, List.getElem?_reverse (by simpa using hr), List.length_range,
    List.getElem?_range (by omega)]
  rfl

theorem getElem?_row {y : Nat} (hy : y < c.height) (x : Nat) : (c.row y)[x]? = c.get? x y := by
  rw [row, List.getElem?_map]
  by_cases hx : x < c.width
  · simp [hx, hy, get?]
  · simp [hx, get?]

/-- The pixels of a canvas are those of a canvas of its size. -/
theorem ofPixels_pixels : ofPixels c.width c.height c.pixels = .ok c := by
  have hpos : ¬ (c.width = 0 ∨ c.height = 0) := by
    have hwidth := c.width_pos
    have hheight := c.height_pos
    omega
  rw [ofPixels, dif_neg hpos, dif_neg (Nat.not_le.mpr c.fits), dif_pos c.size_pixels]

/-! ## Drawing and reading -/

theorem lines_toText : Text.lines c.toText.toList = c.rows.map letters := by
  rw [toText, String.toList_ofList, lines_drawing]

theorem ofText_toText_eq : ofText c.toText = .ok c := by
  rw [ofText, lines_toText,
    readRows_letters c.width_pos (fun _ hrow => c.length_row hrow) 0 (.inl rfl)]
  dsimp only
  rw [flatten_rows, head?_rows, length_rows, Array.toArray_toList, ofPixels_pixels]

/-- The text of a canvas has a line for each row, the top row first, with the
letters of its pixels from the left, and is read as the canvas. So what a canvas
was read from and what it is drawn as are read alike, though they may differ. -/
theorem ofText_toText :
    ofText c.toText = .ok c ∧
      (Text.lines c.toText.toList).length = c.height ∧
      (∀ r < c.height, ∀ x, (Text.lines c.toText.toList)[r]?.bind (·[x]?) =
        (c.get? x (c.height - 1 - r)).map Color.letter) ∧
      ∀ (text : String) (c' : Canvas), ofText text = .ok c' → ofText c'.toText = ofText text := by
  refine ⟨c.ofText_toText_eq, ?_, ?_, ?_⟩
  · rw [lines_toText, List.length_map, length_rows]
  · intro r hr x
    rw [lines_toText, List.getElem?_map, c.getElem?_rows hr, Option.map_some, Option.bind_some,
      letters, List.getElem?_map, c.getElem?_row (by omega)]
  · intro text c' htext
    rw [htext, c'.ofText_toText_eq]

/-- Read from a text with blanks around its rows, an empty line between them
and both letters for white and black. -/
theorem ofText_toText_blanks :
    ∃ c, ofText " w.k\r\n\n\t##r " = .ok c ∧ c.toText = "..#\n##r\n" ∧ ofText c.toText = .ok c ∧
      ofText c.toText = ofText " w.k\r\n\n\t##r " ∧ 1 < c.height ∧
      (Text.lines c.toText.toList)[1]?.bind (·[2]?) =
        (c.get? 2 (c.height - 1 - 1)).map Color.letter := by
  obtain ⟨c, hread, hdrawn, hheight⟩ : ∃ c, ofText " w.k\r\n\n\t##r " = .ok c ∧
      c.toText = "..#\n##r\n" ∧ 1 < c.height := ⟨_, rfl, rfl, by decide⟩
  obtain ⟨hsame, -, hletter, hagain⟩ := ofText_toText c
  exact ⟨c, hread, hdrawn, hsame, hagain _ c hread, hheight, hletter 1 hheight 2⟩

end Canvas

end PixelTurtle
