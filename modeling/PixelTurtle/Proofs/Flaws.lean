/-
PixelTurtle.Proofs.Flaws — which texts are drawings, and what the others are
blamed for.

A line of a drawing is blank, or it is a row: letters that stand for colors,
as many as in the first row, with blanks around them. `Drawing.Flawed` says what
is wrong with a line that is neither.

* `Canvas.readRows_spec` — reading gives a row for each line that is not blank,
  or it ends at the first line with a flaw.
* `Canvas.exists_ofPixels` — rows that were read make a canvas, if there is one
  and a text that long can exist.
* `Canvas.ofText_accepts` — the texts that are read, and for every other one
  the line that it is blamed on.
-/
import PixelTurtle.Proofs.Drawings
import PixelTurtle.Proofs.First

namespace PixelTurtle

/-! ## Parts of a text are no longer than it is -/

namespace Text

theorem length_trim_le (text : List Char) : (trim text).length ≤ text.length := by
  have hend := (List.dropWhile_suffix (l := (trimStart text).reverse) isBlank).length_le
  have hstart := (List.dropWhile_suffix (l := text) isBlank).length_le
  rw [List.length_reverse] at hend
  rw [trim, trimEnd, List.length_reverse]
  exact Nat.le_trans hend hstart

theorem length_flatten_pieces_le (separates : Char → Bool) (text : List Char) :
    (pieces separates text).flatten.length ≤ text.length := by
  induction text with
  | nil => simp [pieces]
  | cons c rest ih =>
    rw [pieces]
    split
    · exact Nat.le_succ_of_le ih
    · split
      · simp
      · next piece others hpieces =>
        rw [hpieces] at ih
        exact Nat.succ_le_succ ih

theorem length_dropReturn_le (line : List Char) : (dropReturn line).length ≤ line.length := by
  unfold dropReturn
  split
  · simp
  · exact Nat.le_refl _

theorem length_flatten_terminated_le (texts : List (List Char)) :
    (terminated texts).flatten.length ≤ texts.flatten.length := by
  induction texts using terminated.induct with
  | case1 => simp [terminated]
  | case2 => simp [terminated]
  | case3 last hlast =>
    have hkept : terminated [last] = [last] := by
      rw [terminated]
      exact hlast
    exact Nat.le_of_eq (congrArg (fun texts => texts.flatten.length) hkept)
  | case4 line rest hne hlast ih =>
    rw [terminated, List.flatten_cons, List.flatten_cons, List.length_append, List.length_append]
    · exact Nat.add_le_add (length_dropReturn_le line) ih
    · exact hne
    · exact hlast

/-- The lines of a text hold no more than the text. -/
theorem length_flatten_lines_le (text : List Char) :
    (lines text).flatten.length ≤ text.length :=
  Nat.le_trans (length_flatten_terminated_le _) (length_flatten_pieces_le _ _)

end Text

/-! ## What a drawing looks like -/

/-- The letters that stand for a color. -/
def Color.alphabet : List Char :=
  ['.', 'w', '#', 'k', 'r', 'g', 'b', 'c', 'm', 'y']

theorem Color.ofLetter?_eq_none_iff (c : Char) : ofLetter? c = none ↔ c ∉ alphabet := by
  unfold ofLetter?
  split <;> simp_all [alphabet]

namespace Drawing

/-- The rows as they are written: the lines without the blanks around them, but
for those that are blank. -/
def rowTexts (lines : List (List Char)) : List (List Char) :=
  (lines.map Text.trim).filter (fun text => !text.isEmpty)

/-- How many letters the first row has. -/
def rowWidth (lines : List (List Char)) : Nat :=
  (rowTexts lines).head?.elim 0 List.length

/-- These lines are a drawing. -/
structure IsDrawing (lines : List (List Char)) : Prop where
  /-- Some line is not blank. -/
  hasRow : ∃ line ∈ lines, Text.trim line ≠ []
  letters : ∀ line ∈ lines, ∀ c ∈ Text.trim line, c ∈ Color.alphabet
  even : ∀ line ∈ lines, ∀ line' ∈ lines, Text.trim line ≠ [] → Text.trim line' ≠ [] →
    (Text.trim line).length = (Text.trim line').length

/-- What can be wrong with a line of a drawing. -/
inductive RowFlaw where
  | letter (letter : Char)
  | width (found expected : Nat)

/-- The flaw of a drawing that a flaw of one of its lines is. -/
def RowFlaw.onLine (line : Nat) : RowFlaw → CanvasFlaw
  | letter c => .invalidPixel line c
  | width found expected => .unevenRow line found expected

/-- What is wrong with a line in a drawing with rows of a given width: its first
letter that stands for no color, or else its width. -/
inductive Flawed (width : Nat) (line : List Char) : RowFlaw → Prop where
  | letter {c : Char} (h : (Text.trim line).find? (· ∉ Color.alphabet) = some c) :
      Flawed width line (.letter c)
  | width (hletters : ∀ c ∈ Text.trim line, c ∈ Color.alphabet) (hrow : Text.trim line ≠ [])
      (hwidth : (Text.trim line).length ≠ width) :
      Flawed width line (.width (Text.trim line).length width)

variable {lines rest : List (List Char)} {line : List Char} {width : Nat} {f f' : RowFlaw}

theorem mem_of_find?_alphabet {text : List Char} {c : Char}
    (h : text.find? (· ∉ Color.alphabet) = some c) : c ∈ text ∧ c ∉ Color.alphabet :=
  ⟨List.mem_of_find?_eq_some h, by simpa using List.find?_some h⟩

theorem Flawed.unique (h : Flawed width line f) (h' : Flawed width line f') : f = f' := by
  cases h with
  | letter h =>
    cases h' with
    | letter h' =>
      obtain rfl := Option.some.inj (h.symm.trans h')
      rfl
    | width hletters =>
      obtain ⟨hmem, hnot⟩ := mem_of_find?_alphabet h
      exact absurd (hletters _ hmem) hnot
  | width hletters =>
    cases h' with
    | letter h' =>
      obtain ⟨hmem, hnot⟩ := mem_of_find?_alphabet h'
      exact absurd (hletters _ hmem) hnot
    | width => rfl

/-- A line without a flaw is blank or a row. -/
theorem not_flawed_iff : (∀ f, ¬ Flawed width line f) ↔
    (∀ c ∈ Text.trim line, c ∈ Color.alphabet) ∧
      (Text.trim line ≠ [] → (Text.trim line).length = width) := by
  constructor
  · intro h
    have hletters : ∀ c ∈ Text.trim line, c ∈ Color.alphabet := by
      cases hfind : (Text.trim line).find? (· ∉ Color.alphabet) with
      | none => simpa using hfind
      | some c => exact absurd (.letter hfind) (h _)
    exact ⟨hletters, fun hrow => by_contra fun hwidth => h _ (.width hletters hrow hwidth)⟩
  · rintro ⟨hletters, hwidth⟩ f (h | ⟨-, hrow, hne⟩)
    · obtain ⟨hmem, hnot⟩ := mem_of_find?_alphabet h
      exact hnot (hletters _ hmem)
    · exact hne (hwidth hrow)

theorem not_flawed_of_blank (h : Text.trim line = []) : ¬ Flawed width line f :=
  not_flawed_iff.mpr (by simp [h]) f

theorem rowTexts_cons_blank (h : Text.trim line = []) :
    rowTexts (line :: rest) = rowTexts rest := by
  simp [rowTexts, h]

theorem rowTexts_cons_row (h : Text.trim line ≠ []) :
    rowTexts (line :: rest) = Text.trim line :: rowTexts rest := by
  simp [rowTexts, h]

theorem rowTexts_eq_nil_iff : rowTexts lines = [] ↔ ∀ line ∈ lines, Text.trim line = [] := by
  simp [rowTexts]

theorem length_flatten_rowTexts_le (lines : List (List Char)) :
    (rowTexts lines).flatten.length ≤ lines.flatten.length := by
  induction lines with
  | nil => exact Nat.le_refl _
  | cons line rest ih =>
    rw [List.flatten_cons, List.length_append]
    by_cases hrow : Text.trim line = []
    · rw [rowTexts_cons_blank hrow]
      exact Nat.le_add_left_of_le ih
    · rw [rowTexts_cons_row hrow, List.flatten_cons, List.length_append]
      exact Nat.add_le_add (Text.length_trim_le line) ih

/-- The first row is one of the lines. -/
theorem exists_length_eq_rowWidth (h : ∃ line ∈ lines, Text.trim line ≠ []) :
    ∃ line ∈ lines, Text.trim line ≠ [] ∧ (Text.trim line).length = rowWidth lines := by
  cases hrows : rowTexts lines with
  | nil =>
    obtain ⟨line, hline, hrow⟩ := h
    exact absurd (rowTexts_eq_nil_iff.mp hrows line hline) hrow
  | cons first rest =>
    have hfirst : first ∈ rowTexts lines := hrows ▸ List.mem_cons_self
    obtain ⟨⟨line, hline, rfl⟩, hrow⟩ : (∃ line ∈ lines, Text.trim line = first) ∧ first ≠ [] := by
      simpa [rowTexts] using hfirst
    exact ⟨line, hline, hrow, by rw [rowWidth, hrows]; rfl⟩

/-- A drawing is what has a row and no flaw. -/
theorem isDrawing_iff : IsDrawing lines ↔
    (∃ line ∈ lines, Text.trim line ≠ []) ∧
      ∀ line ∈ lines, ∀ f, ¬ Flawed (rowWidth lines) line f := by
  constructor
  · rintro ⟨hrow, hletters, heven⟩
    obtain ⟨first, hfirst, hne, hwidth⟩ := exists_length_eq_rowWidth hrow
    refine ⟨hrow, fun line hline => not_flawed_iff.mpr ⟨hletters line hline, fun hline' => ?_⟩⟩
    rw [← hwidth]
    exact heven line hline first hfirst hline' hne
  · rintro ⟨hrow, hflaw⟩
    refine ⟨hrow, fun line hline => (not_flawed_iff.mp (hflaw line hline)).1, ?_⟩
    intro line hline line' hline' hne hne'
    rw [(not_flawed_iff.mp (hflaw line hline)).2 hne,
      (not_flawed_iff.mp (hflaw line' hline')).2 hne']

/-- Why these lines are no drawing. -/
inductive Rejected (lines : List (List Char)) : CanvasFlaw → Prop where
  | blank (h : ∀ line ∈ lines, Text.trim line = []) : Rejected lines .empty
  | flawed {index : Nat} {f : RowFlaw} (h : FirstAt (Flawed (rowWidth lines)) lines index f) :
      Rejected lines (f.onLine index)

variable {flaw flaw' : CanvasFlaw}

theorem Rejected.not_isDrawing (h : Rejected lines flaw) : ¬ IsDrawing lines := by
  intro hdrawing
  obtain ⟨⟨row, hrow, hne⟩, hflaw⟩ := isDrawing_iff.mp hdrawing
  cases h with
  | blank hblank => exact hne (hblank row hrow)
  | flawed hfirst =>
    obtain ⟨line, hline, hflawed⟩ := hfirst.holds
    exact hflaw line (List.mem_of_getElem? hline) _ hflawed

theorem not_firstAt_of_blank {index : Nat} (h : ∀ line ∈ lines, Text.trim line = []) :
    ¬ FirstAt (Flawed width) lines index f := by
  intro hfirst
  obtain ⟨line, hline, hflawed⟩ := hfirst.holds
  exact not_flawed_of_blank (h line (List.mem_of_getElem? hline)) hflawed

theorem Rejected.unique (h : Rejected lines flaw) (h' : Rejected lines flaw') : flaw = flaw' := by
  cases h with
  | blank hblank =>
    cases h' with
    | blank => rfl
    | flawed hfirst => exact absurd hfirst (not_firstAt_of_blank hblank)
  | flawed hfirst =>
    cases h' with
    | blank hblank => exact absurd hfirst (not_firstAt_of_blank hblank)
    | flawed hfirst' =>
      obtain ⟨rfl, rfl⟩ := hfirst.unique hfirst' fun _ _ _ => Flawed.unique
      rfl

/-- The fault names the first line with a flaw, or no line if all are blank. -/
theorem Rejected.line_toFault_iff (h : Rejected lines flaw) (index : Nat) :
    flaw.toFault.line = some index ↔ ∃ f, FirstAt (Flawed (rowWidth lines)) lines index f := by
  cases h with
  | blank hblank =>
    have hnone : CanvasFlaw.empty.toFault.line = none := rfl
    rw [hnone]
    exact ⟨by simp, fun ⟨_, hfirst⟩ => absurd hfirst (not_firstAt_of_blank hblank)⟩
  | @flawed first f hfirst =>
    have hline : (f.onLine first).toFault.line = some first := by cases f <;> rfl
    rw [hline, Option.some.injEq]
    constructor
    · rintro rfl
      exact ⟨f, hfirst⟩
    · rintro ⟨f', hfirst'⟩
      exact (hfirst.unique hfirst' fun _ _ _ => Flawed.unique).1

end Drawing

/-! ## Reading rows -/

namespace Canvas

open Drawing

/-- A row is read to its end or to its first letter that stands for no color. -/
theorem readRow_spec (line : Nat) (text : List Char) :
    (∃ row, readRow line text = .ok row ∧ row.length = text.length ∧
      ∀ c ∈ text, c ∈ Color.alphabet) ∨
    ∃ c, readRow line text = .error (.invalidPixel line c) ∧
      text.find? (· ∉ Color.alphabet) = some c := by
  induction text with
  | nil => exact .inl ⟨[], rfl, rfl, by simp⟩
  | cons c rest ih =>
    rw [readRow]
    cases hc : Color.ofLetter? c with
    | none =>
      have hmem := (Color.ofLetter?_eq_none_iff c).mp hc
      exact .inr ⟨c, rfl, by simp [hmem]⟩
    | some color =>
      have hmem : c ∈ Color.alphabet := by
        by_contra hmem
        simp [(Color.ofLetter?_eq_none_iff c).mpr hmem] at hc
      rcases ih with ⟨row, hrow, hlength, hletters⟩ | ⟨c', hrow, hfind⟩
      · refine .inl ⟨color :: row, ?_, by simp [hlength], List.forall_mem_cons.mpr ⟨hmem, hletters⟩⟩
        rw [hrow]
        rfl
      · refine .inr ⟨c', ?_, by simpa [hmem] using hfind⟩
        rw [hrow]
        rfl

/-- Lines are read to the end, if none has a flaw, or to the first that has. -/
theorem readRows_spec (lines : List (List Char)) :
    ∀ (line : Nat) (width : Option Nat),
      (∃ rows, readRows line width lines = .ok rows ∧
        rows.map List.length = (rowTexts lines).map List.length ∧
        ∀ text ∈ lines, ∀ f, ¬ Flawed (width.getD (rowWidth lines)) text f) ∨
      ∃ index f, readRows line width lines = .error (f.onLine (line + index)) ∧
        FirstAt (Flawed (width.getD (rowWidth lines))) lines index f := by
  induction lines with
  | nil =>
    intro line width
    exact .inl ⟨[], rfl, rfl, by simp⟩
  | cons text rest ih =>
    intro line width
    rw [readRows]
    split
    · next hblank =>
      have hwidth : rowWidth (text :: rest) = rowWidth rest := by
        rw [rowWidth, rowTexts_cons_blank hblank, rowWidth]
      have hfine : ∀ f, ¬ Flawed (width.getD (rowWidth rest)) text f :=
        fun f => not_flawed_of_blank hblank
      rw [hwidth, rowTexts_cons_blank hblank]
      rcases ih (line + 1) width with ⟨rows, hrows, hlengths, hflaw⟩ | ⟨index, f, hrows, hfirst⟩
      · exact .inl ⟨rows, hrows, hlengths, List.forall_mem_cons.mpr ⟨hfine, hflaw⟩⟩
      · refine .inr ⟨index + 1, f, ?_, firstAt_succ.mpr ⟨hfine, hfirst⟩⟩
        rw [hrows, Nat.add_assoc, Nat.add_comm 1]
    · next hrow =>
      -- the first row sets the width, and after it the width is set
      have hwidth : rowWidth (text :: rest) = (Text.trim text).length := by
        rw [rowWidth, rowTexts_cons_row hrow]
        rfl
      rw [hwidth, rowTexts_cons_row hrow]
      rcases readRow_spec line (Text.trim text) with
        ⟨row, hread, hlength, hletters⟩ | ⟨c, hread, hfind⟩
      · rw [hread]
        dsimp only
        rw [hlength]
        split
        · next heven =>
          have hfine : ∀ f, ¬ Flawed (width.getD (Text.trim text).length) text f :=
            not_flawed_iff.mpr ⟨hletters, fun _ => heven⟩
          rcases ih (line + 1) (some (width.getD (Text.trim text).length)) with
            ⟨rows, hrows, hlengths, hflaw⟩ | ⟨index, f, hrows, hfirst⟩
          · refine .inl ⟨row :: rows, ?_, ?_, List.forall_mem_cons.mpr ⟨hfine, hflaw⟩⟩
            · rw [hrows]
              rfl
            · rw [List.map_cons, List.map_cons, hlength, hlengths]
          · refine .inr ⟨index + 1, f, ?_, firstAt_succ.mpr ⟨hfine, hfirst⟩⟩
            rw [hrows, Nat.add_assoc, Nat.add_comm 1]
            rfl
        · next huneven =>
          exact .inr ⟨0, _, rfl, firstAt_zero.mpr (.width hletters hrow huneven)⟩
      · rw [hread]
        exact .inr ⟨0, .letter c, rfl, firstAt_zero.mpr (.letter hfind)⟩

/-! ## The canvas of rows that were read -/

theorem length_flatten {rows : List (List Color)} {width : Nat}
    (h : ∀ row ∈ rows, row.length = width) : rows.flatten.length = width * rows.length := by
  induction rows with
  | nil => rfl
  | cons row rest ih =>
    obtain ⟨hrow, hrest⟩ := List.forall_mem_cons.mp h
    rw [List.flatten_cons, List.length_append, hrow, ih hrest, List.length_cons, Nat.mul_succ,
      Nat.add_comm]

/-- Rows of one width make a canvas, unless their pixels are too many to be
counted. -/
theorem exists_ofPixels {rows : List (List Color)} {width : Nat} (hne : rows ≠ [])
    (hwidth : 0 < width) (hrows : ∀ row ∈ rows, row.length = width)
    (hfits : rows.flatten.length < UInt64.size) :
    ∃ c, ofPixels (rows.head?.elim 0 List.length) rows.length rows.reverse.flatten.toArray =
      .ok c := by
  have hhead : rows.head?.elim 0 List.length = width := by
    cases rows with
    | nil => exact absurd rfl hne
    | cons row rest => exact hrows row List.mem_cons_self
  have hpos : ¬ (width = 0 ∨ rows.length = 0) := by
    have hlength := List.length_pos_iff.mpr hne
    omega
  have hsize : rows.reverse.flatten.toArray.size = width * rows.length := by
    rw [List.size_toArray, length_flatten fun row hrow => hrows row (List.mem_reverse.mp hrow),
      List.length_reverse]
  rw [length_flatten hrows] at hfits
  rw [hhead, ofPixels, dif_neg hpos, dif_neg (Nat.not_le.mpr hfits), dif_pos hsize]
  exact ⟨_, rfl⟩

/-- Rows that were read are as wide as the first line that is not blank, and
their letters stand in the text. -/
theorem rows_of_readRows {lines : List (List Char)} {rows : List (List Color)}
    (hlengths : rows.map List.length = (rowTexts lines).map List.length)
    (hflaw : ∀ line ∈ lines, ∀ f, ¬ Flawed (rowWidth lines) line f) :
    (∀ row ∈ rows, row.length = rowWidth lines) ∧
      rows.flatten.length = (rowTexts lines).flatten.length := by
  constructor
  · intro row hrow
    have hmem : row.length ∈ (rowTexts lines).map List.length :=
      hlengths ▸ List.mem_map_of_mem hrow
    obtain ⟨text, htext, hlength⟩ := List.mem_map.mp hmem
    obtain ⟨⟨line, hline, rfl⟩, hne⟩ : (∃ line ∈ lines, Text.trim line = text) ∧ text ≠ [] := by
      simpa [rowTexts] using htext
    rw [← hlength]
    exact (not_flawed_iff.mp (hflaw line hline)).2 hne
  · rw [List.length_flatten, List.length_flatten, hlengths]

/-- Rows that were read of a text that is not too long make a canvas. -/
theorem exists_ofPixels_of_readRows {text : String} (hshort : text.length < UInt64.size)
    {rows : List (List Color)} (hne : rows ≠ [])
    (hread : readRows 0 none (Text.lines text.toList) = .ok rows) :
    ∃ c, ofPixels (rows.head?.elim 0 List.length) rows.length rows.reverse.flatten.toArray =
      .ok c := by
  rcases readRows_spec (Text.lines text.toList) 0 none with
    ⟨rows', hrows, hlengths, hflaw⟩ | ⟨index, f, hrows, -⟩
  · obtain rfl := Except.ok.inj (hread.symm.trans hrows)
    obtain ⟨hwidths, hflatten⟩ := rows_of_readRows hlengths hflaw
    have hfits : rows.flatten.length < UInt64.size :=
      calc
        rows.flatten.length ≤ (Text.lines text.toList).flatten.length :=
          hflatten ▸ length_flatten_rowTexts_le _
        _ ≤ text.toList.length := Text.length_flatten_lines_le _
        _ < UInt64.size := by rwa [String.length_toList]
    have hrow : ∃ line ∈ Text.lines text.toList, Text.trim line ≠ [] := by
      by_contra hblank
      have hnil := rowTexts_eq_nil_iff.mpr fun line hline =>
        by_contra fun hrow => hblank ⟨line, hline, hrow⟩
      rw [hnil, List.map_nil, List.map_eq_nil_iff] at hlengths
      exact hne hlengths
    obtain ⟨line, -, hline, hlength⟩ := exists_length_eq_rowWidth hrow
    have hwidth : 0 < rowWidth (Text.lines text.toList) := by
      rw [← hlength]
      exact List.length_pos_iff.mpr hline
    exact exists_ofPixels hne hwidth hwidths hfits
  · simp [hread] at hrows

/-- A text is read, or it is rejected for a reason. -/
theorem ofText_cases {text : String} (hshort : text.length < UInt64.size) :
    (IsDrawing (Text.lines text.toList) ∧ ∃ c, ofText text = .ok c) ∨
      ∃ flaw, ofText text = .error flaw ∧ Rejected (Text.lines text.toList) flaw := by
  rcases readRows_spec (Text.lines text.toList) 0 none with
    ⟨rows, hrows, hlengths, hflaw⟩ | ⟨index, f, hrows, hfirst⟩
  · by_cases hblank : ∀ line ∈ Text.lines text.toList, Text.trim line = []
    · rw [rowTexts_eq_nil_iff.mpr hblank, List.map_nil, List.map_eq_nil_iff] at hlengths
      refine .inr ⟨.empty, ?_, .blank hblank⟩
      rw [ofText, hrows, hlengths]
      rfl
    · have hne : rows ≠ [] := by
        rintro rfl
        rw [List.map_nil, eq_comm, List.map_eq_nil_iff] at hlengths
        exact hblank (rowTexts_eq_nil_iff.mp hlengths)
      obtain ⟨c, hc⟩ := exists_ofPixels_of_readRows hshort hne hrows
      push Not at hblank
      refine .inl ⟨isDrawing_iff.mpr ⟨hblank, hflaw⟩, c, ?_⟩
      rw [ofText, hrows]
      exact hc
  · refine .inr ⟨f.onLine index, ?_, .flawed hfirst⟩
    rw [ofText, hrows, Nat.zero_add]

/-- A text is read exactly when it is a drawing. Any other is rejected as a
canvas, on the first line with a flaw if some line is not blank, and after its
rows are read nothing is found wrong with them. No text in memory has as many
letters as cannot be counted in 64 bits. -/
theorem ofText_accepts (text : String) (hshort : text.length < UInt64.size) :
    ((∃ c, ofText text = .ok c) ↔ IsDrawing (Text.lines text.toList)) ∧
      (∀ flaw, ofText text = .error flaw ↔ Rejected (Text.lines text.toList) flaw) ∧
      (∀ flaw, ofText text = .error flaw → flaw.toFault.code = .invalidCanvas ∧
        ∀ index, flaw.toFault.line = some index ↔
          ∃ f, FirstAt (Flawed (rowWidth (Text.lines text.toList))) (Text.lines text.toList)
            index f) ∧
      ∀ rows, rows ≠ [] → readRows 0 none (Text.lines text.toList) = .ok rows →
        ∃ c, ofPixels (rows.head?.elim 0 List.length) rows.length rows.reverse.flatten.toArray =
          .ok c := by
  have herror : ∀ flaw, ofText text = .error flaw ↔ Rejected (Text.lines text.toList) flaw := by
    intro flaw
    rcases ofText_cases hshort with ⟨hdrawing, c, hc⟩ | ⟨flaw', herror, hrejected⟩
    · rw [hc]
      exact ⟨by simp, fun hrejected => absurd hdrawing hrejected.not_isDrawing⟩
    · rw [herror, Except.error.injEq]
      constructor
      · rintro rfl
        exact hrejected
      · exact hrejected.unique
  refine ⟨⟨?_, fun hdrawing => ?_⟩, herror, fun flaw hflaw => ⟨rfl, ?_⟩, fun rows hne hread =>
    exists_ofPixels_of_readRows hshort hne hread⟩
  · rintro ⟨c, hc⟩
    rcases ofText_cases hshort with ⟨hdrawing, -⟩ | ⟨flaw, hflaw, -⟩
    · exact hdrawing
    · simp [hc] at hflaw
  · rcases ofText_cases hshort with ⟨-, hc⟩ | ⟨flaw, -, hrejected⟩
    · exact hc
    · exact absurd hdrawing hrejected.not_isDrawing
  · exact ((herror flaw).mp hflaw).line_toFault_iff

/-- The third line has a letter too many and one that is none, which comes
first. Without that line the text is a drawing. -/
theorem ofText_accepts_letter_first :
    ∃ flawed drawing : String, flawed = "\n ..\r\n.x.\n#k" ∧ drawing = "\n ..\r\n#k" ∧
      flawed.length < UInt64.size ∧ drawing.length < UInt64.size ∧
      ofText flawed = .error (.invalidPixel 2 'x') ∧
      Rejected (Text.lines flawed.toList) (.invalidPixel 2 'x') ∧
      (∃ f, FirstAt (Flawed (rowWidth (Text.lines flawed.toList))) (Text.lines flawed.toList) 2 f) ∧
      readRows 0 none (Text.lines drawing.toList) = .ok [[.white, .white], [.black, .black]] ∧
      (∃ c, ofPixels 2 2 #[.black, .black, .white, .white] = .ok c) ∧
      IsDrawing (Text.lines drawing.toList) := by
  obtain ⟨flawed, drawing, hflawed, hdrawing, hlong, hshort, herror, hrows⟩ :
      ∃ flawed drawing : String, flawed = "\n ..\r\n.x.\n#k" ∧ drawing = "\n ..\r\n#k" ∧
        flawed.length < UInt64.size ∧ drawing.length < UInt64.size ∧
        ofText flawed = .error (.invalidPixel 2 'x') ∧
        readRows 0 none (Text.lines drawing.toList) = .ok [[.white, .white], [.black, .black]] :=
    ⟨_, _, rfl, rfl, by decide, by decide, rfl, rfl⟩
  obtain ⟨-, hrejects, hline, -⟩ := ofText_accepts flawed hlong
  obtain ⟨haccepts, -, -, hcanvas⟩ := ofText_accepts drawing hshort
  refine ⟨flawed, drawing, hflawed, hdrawing, hlong, hshort, herror, (hrejects _).mp herror,
    ((hline _ herror).2 2).mp rfl, hrows, hcanvas _ (by simp) hrows, haccepts.mp ?_⟩
  rw [hdrawing]
  exact ⟨_, rfl⟩

end Canvas

end PixelTurtle
