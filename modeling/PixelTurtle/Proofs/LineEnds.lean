/-
PixelTurtle.Proofs.LineEnds — how the lines of a source end does not matter.

A line may end in the program text, in a `//` comment or inside of a block
comment, on a lone `/` or `*`, or on a vertical tab. White space behind it is
silent in all of these modes, and a remark is in those that leave no comment
open (`Trailing.silent`). Neither begins with a character that could make a
comment sign of the last one of the line.

* `lex_append` — a line with such an end yields the same tokens and leaves the
  same comment.
* `Extended.readLines_eq` — so all lines are read as before, one after the other.
* `Program.compile_lineEnds` — carriage returns before the line feeds, white
  space and remarks change neither the program nor the fault.
-/
import PixelTurtle.Proofs.BlankLines

namespace PixelTurtle

/-! ## Behind the end of a line -/

/-- In a mode, a text yields no tokens and changes nothing: it may as well not
be there. -/
def Silent (line : Nat) (mode : LexMode) (tail : List Char) : Prop :=
  ∀ pending, scan line mode pending tail = scan line mode pending []

/-- What can be appended to a line, given the comment that it leaves open: white
space, or a remark if none is open. -/
inductive Trailing : Comment → List Char → Prop where
  | blanks {comment : Comment} {tail : List Char}
      (blank : ∀ c ∈ tail, c = ' ' ∨ c = '\t' ∨ c = '\r') : Trailing comment tail
  | remark {text : List Char} (oneLine : '\n' ∉ text) (oneSubLine : subLineBreak ∉ text) :
      Trailing .closed (' ' :: '/' :: '/' :: text)

theorem silent_of_blanks (line : Nat) (mode : LexMode) {tail : List Char}
    (h : ∀ c ∈ tail, c = ' ' ∨ c = '\t' ∨ c = '\r') : Silent line mode tail := by
  intro pending
  induction tail generalizing pending with
  | nil => rfl
  | cons c rest ih =>
    have hrest := ih fun d hd => h d (List.mem_cons_of_mem c hd)
    rcases h c List.mem_cons_self with rfl | rfl | rfl <;>
      cases mode <;> simp [scan, isSeparator, subLineBreak, hrest, LexMode.comment, flushWord]

/-- A `//` comment goes on to the end of the line. -/
theorem silent_lineComment (line : Nat) {text : List Char} (h : subLineBreak ∉ text) :
    Silent line .lineComment text := by
  intro pending
  induction text with
  | nil => rfl
  | cons c rest ih =>
    obtain ⟨hc, hrest⟩ : subLineBreak ≠ c ∧ subLineBreak ∉ rest := by simpa using h
    simpa [scan, hc.symm] using ih hrest

theorem silent_remark (line : Nat) {mode : LexMode} (hmode : mode.comment = .closed)
    {text : List Char} (h : subLineBreak ∉ text) :
    Silent line mode (' ' :: '/' :: '/' :: text) := by
  cases mode with
  | block opening => simp [LexMode.comment] at hmode
  | code =>
    intro pending
    have hcomment := silent_lineComment line h []
    simp [scan, isSeparator, hcomment, flushWord, LexMode.comment]
  | lineComment =>
    refine silent_lineComment line ?_
    simpa [subLineBreak] using h

/-- What is appended to a line is silent in every mode that the line may end
in. -/
theorem Trailing.silent {comment : Comment} {tail : List Char} (h : Trailing comment tail)
    (line : Nat) {mode : LexMode} (hmode : mode.comment = comment) : Silent line mode tail := by
  cases h with
  | blanks blank => exact silent_of_blanks line mode blank
  | remark _ oneSubLine => exact silent_remark line hmode oneSubLine

/-- It begins with no character that could make a comment sign of the last
character of the line. -/
theorem Trailing.head?_ne {comment : Comment} {tail : List Char} (h : Trailing comment tail) :
    tail.head? ≠ some '/' ∧ tail.head? ≠ some '*' := by
  cases h with
  | remark _ _ => simp
  | blanks blank =>
    cases tail with
    | nil => simp
    | cons c rest => rcases blank c List.mem_cons_self with rfl | rfl | rfl <;> simp

theorem Trailing.not_mem {comment : Comment} {tail : List Char} (h : Trailing comment tail) :
    '\n' ∉ tail := by
  cases h with
  | remark oneLine _ => simpa using oneLine
  | blanks blank =>
    intro hmem
    simpa using blank '\n' hmem

/-- A text that does not begin with a character does not do so with more
behind it. -/
theorem append_ne_cons {c : Char} {rest tail : List Char} (htail : tail.head? ≠ some c)
    (h : ∀ others, rest = c :: others → False) (others : List Char) :
    rest ++ tail ≠ c :: others := by
  cases rest with
  | nil =>
    rintro rfl
    exact htail rfl
  | cons d rest =>
    intro heq
    obtain ⟨rfl, -⟩ := List.cons.inj heq
    exact h rest rfl

/-- What is silent in the mode that a line ends in can be appended to it. The
induction follows the scanner, which looks at two characters at a time: the last
one of the line and the first one behind it must not be a comment sign. -/
theorem scan_append (line : Nat) {tail : List Char} (hslash : tail.head? ≠ some '/')
    (hstar : tail.head? ≠ some '*') (mode : LexMode) (pending text : List Char)
    (h : ∀ last : LexMode, last.comment = (scan line mode pending text).2 → Silent line last tail) :
    scan line mode pending (text ++ tail) = scan line mode pending text := by
  fun_induction scan line mode pending text with
  | case1 mode pending => exact h mode rfl pending
  | case5 pending c rest hremark hblock hcolon hseparator tokens comment hscan ih =>
    have hremark' := fun others hc => append_ne_cons hslash (fun r => hremark r hc) others
    have hblock' := fun others hc => append_ne_cons hstar (fun r => hblock r hc) others
    simp_all [scan]
  | case6 pending c rest hremark hblock hcolon hseparator ih =>
    have hremark' := fun others hc => append_ne_cons hslash (fun r => hremark r hc) others
    have hblock' := fun others hc => append_ne_cons hstar (fun r => hblock r hc) others
    simp_all [scan]
  | case10 opening pending c rest hclose ih =>
    have hclose' := fun others hc => append_ne_cons hslash (fun r => hclose r hc) others
    simp_all [scan]
  | _ => simp_all [scan]

/-- With something appended to it, a line yields the same tokens and leaves the
same comment. -/
theorem lex_append {line : Nat} {comment : Comment} {text tail : List Char}
    (h : Trailing (lex line comment text).2 tail) :
    lex line comment (text ++ tail) = lex line comment text := by
  obtain ⟨hslash, hstar⟩ := h.head?_ne
  exact scan_append line hslash hstar _ _ _ fun last hlast => h.silent line hlast

/-! ## From line to line -/

/-- Lines from a number on, and the same lines with something appended to each
of them. -/
inductive Extended : Nat → Comment → List (List Char) → List (List Char) → Prop where
  | nil (line : Nat) (comment : Comment) : Extended line comment [] []
  | cons {line : Nat} {comment : Comment} {text tail : List Char}
      {texts texts' : List (List Char)} (first : Trailing (lex line comment text).2 tail)
      (rest : Extended (line + 1) (lex line comment text).2 texts texts') :
      Extended line comment (text :: texts) ((text ++ tail) :: texts')

namespace Extended

variable {line : Nat} {comment : Comment} {texts texts' : List (List Char)}

theorem length_eq (h : Extended line comment texts texts') : texts'.length = texts.length := by
  induction h with
  | nil => rfl
  | cons _ _ ih => simp [ih]

/-- Every line is read as before, with the comment and the labels that the lines
before it leave. -/
theorem readLines_eq (h : Extended line comment texts texts') (v : Vocabulary) (lineCount : Nat)
    (labels : Labels) :
    Draft.readLines v lineCount line comment labels texts' =
      Draft.readLines v lineCount line comment labels texts := by
  induction h generalizing labels with
  | nil => rfl
  | cons first _ ih => simp only [Draft.readLines, lex_append first, ih]

theorem ofSource_eq {source source' : String}
    (h : Extended 0 .closed (Draft.sourceLines source) (Draft.sourceLines source'))
    (dialect : Dialect) : Draft.ofSource dialect source' = Draft.ofSource dialect source := by
  simp only [Draft.ofSource, h.length_eq, h.readLines_eq]

theorem compile_eq {source source' : String}
    (h : Extended 0 .closed (Draft.sourceLines source) (Draft.sourceLines source'))
    (options : CompileOptions) :
    Program.compile options source' = Program.compile options source := by
  simp only [Program.compile, h.ofSource_eq]

/-- The comments after the lines may be read off the lines as they were. -/
theorem of_trailing (texts : List (List Char)) (line : Nat) (comment : Comment)
    (tails : Nat → List Char)
    (h : ∀ n < texts.length, Trailing (commentAfter line comment (texts.take (n + 1))) (tails n)) :
    Extended line comment texts (texts.mapIdx fun n text => text ++ tails n) := by
  induction texts generalizing line comment tails with
  | nil => exact .nil line comment
  | cons text texts ih =>
    rw [List.mapIdx_cons]
    refine .cons (h 0 (by simp)) (ih _ _ _ fun n hn => ?_)
    exact h (n + 1) (by simpa using hn)

end Extended

/-! ## Sources -/

namespace Draft

/-- A source with something appended to each of its lines. -/
def appendToLines (source : String) (tails : Nat → List Char) : String :=
  String.ofList (['\n'].intercalate ((sourceLines source).mapIdx fun n text => text ++ tails n))

theorem sourceLines_appendToLines {source : String} {tails : Nat → List Char}
    (h : ∀ n < (sourceLines source).length, '\n' ∉ tails n) :
    sourceLines (appendToLines source tails) =
      (sourceLines source).mapIdx fun n text => text ++ tails n := by
  have hne : ((sourceLines source).mapIdx fun n text => text ++ tails n) ≠ [] := by
    rw [ne_eq, List.mapIdx_eq_nil_iff]
    exact Text.pieces_ne_nil _ _
  have hlines : ∀ line ∈ (sourceLines source).mapIdx fun n text => text ++ tails n,
      '\n' ∉ line := by
    intro line hline
    obtain ⟨n, hn, rfl⟩ := List.mem_mapIdx.mp hline
    have hbefore := Text.not_mem_of_mem_pieces (List.getElem_mem hn)
    simp [hbefore, h n hn]
  exact sourceLines_intercalate hne hlines

/-- A source with a carriage return before every line feed. -/
def withReturns (source : String) : String :=
  String.ofList (source.toList.flatMap fun c => if c = '\n' then ['\r', '\n'] else [c])

/-- Lines with a carriage return at the end of all but the last. -/
def returned : List (List Char) → List (List Char)
  | [] => []
  | [last] => [last]
  | text :: next :: rest => (text ++ ['\r']) :: returned (next :: rest)

theorem sourceLines_withReturns (source : String) :
    sourceLines (withReturns source) = returned (sourceLines source) := by
  rw [sourceLines, withReturns, String.toList_ofList, sourceLines]
  induction source.toList with
  | nil => rfl
  | cons c rest ih =>
    obtain ⟨piece, others, hpieces⟩ :=
      List.exists_cons_of_ne_nil (Text.pieces_ne_nil (· == '\n') rest)
    rw [List.flatMap_cons]
    by_cases hc : c = '\n'
    · simp [hc, Text.pieces, ih, hpieces, returned]
    · cases others <;> simp [hc, Text.pieces, ih, hpieces, returned]

end Draft

theorem Extended.returned (texts : List (List Char)) :
    ∀ (line : Nat) (comment : Comment), Extended line comment texts (Draft.returned texts) := by
  intro line comment
  fun_induction Draft.returned texts generalizing line comment with
  | case1 => exact .nil line comment
  | case2 last =>
    have hnothing : Trailing (lex line comment last).2 [] := .blanks (by simp)
    have hlast := Extended.cons hnothing (.nil _ _)
    rwa [List.append_nil] at hlast
  | case3 text next rest ih => exact .cons (.blanks (by simp)) (ih _ _)

/-! ## Compiling -/

namespace Program

/-- How lines end does not matter. A source compiles to the same program, or is
rejected with the same fault, when every line feed has a carriage return before
it, and when anything is appended to its lines that is white space there, or a
remark behind which no comment is open. -/
theorem compile_lineEnds (options : CompileOptions) (source : String) :
    compile options (Draft.withReturns source) = compile options source ∧
      ∀ tails : Nat → List Char,
        (∀ n < (Draft.sourceLines source).length,
          Trailing (commentAfter 0 .closed ((Draft.sourceLines source).take (n + 1))) (tails n)) →
        compile options (Draft.appendToLines source tails) = compile options source := by
  refine ⟨?_, fun tails htails => ?_⟩
  · refine Extended.compile_eq ?_ options
    rw [Draft.sourceLines_withReturns]
    exact .returned _ 0 .closed
  · refine Extended.compile_eq ?_ options
    rw [Draft.sourceLines_appendToLines fun n hn => (htails n hn).not_mem]
    exact .of_trailing _ 0 .closed tails htails

/-- White space in an open comment, and a remark behind its end. The last line is
rejected, for the same word. -/
theorem compile_lineEnds_in_comment :
    compile ⟨.palette, true, none⟩ "a: right /* one\r\ntwo */ goto a\r\nup a:" =
        compile ⟨.palette, true, none⟩ "a: right /* one\ntwo */ goto a\nup a:" ∧
      compile ⟨.palette, true, none⟩ "a: right /* one\t \r\ntwo */ goto a // */\nup a:" =
        compile ⟨.palette, true, none⟩ "a: right /* one\ntwo */ goto a\nup a:" ∧
      compile ⟨.palette, true, none⟩ "a: right /* one\ntwo */ goto a\nup a:" =
        .error ⟨.badSyntax, some 2, some 1, "'a' should be on the next line"⟩ := by
  obtain ⟨hreturns, htails⟩ := compile_lineEnds ⟨.palette, true, none⟩
    "a: right /* one\ntwo */ goto a\nup a:"
  refine ⟨hreturns, ?_, rfl⟩
  refine htails (fun n => if n = 0 then "\t \r".toList else if n = 1 then " // */".toList else [])
    fun n hn => ?_
  match n, hn with
  | 0, _ => exact .blanks (by simp)
  | 1, _ => exact .remark (by decide) (by decide)
  | 2, _ => exact .blanks (by simp)

end Program

end PixelTurtle
