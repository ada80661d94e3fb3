/-
PixelTurtle.Draft — a source read line by line, with jumps still written
as labels.

`Draft.ofSource` gives one instruction per source line. The first line
that is rejected decides the fault; a block comment still open at the end
is reported after that, on the line that opened it.
-/
import PixelTurtle.Draft.Line
import PixelTurtle.Text.Blank

namespace PixelTurtle

/-- The lines of a source as instructions, and its labels. -/
structure Draft where
  dialect : Dialect
  instructions : List (Instruction Goto)
  labels : Labels

namespace Draft

/-- The draft of no lines. -/
def empty (dialect : Dialect) : Draft :=
  ⟨dialect, [], []⟩

/-- How many lines hold an instruction. -/
def count (d : Draft) : Nat :=
  d.instructions.countP (fun i => i.kind ≠ .placeholder)

/-- The fault of a comment that is opened on a line and never closed. -/
def unterminated (line : Nat) : Fault where
  code := .unterminatedComment
  line := some line
  word := none
  detail := "block comment is not terminated"

/-- Read the lines from `line` on, given the comment and the labels that
the lines before left. -/
def readLines (v : Vocabulary) (lineCount : Nat) (line : Nat) (comment : Comment)
    (labels : Labels) : List (List Char) → Except Fault (List (Instruction Goto) × Labels)
  | [] =>
      match comment with
      | .closed => .ok ([], labels)
      | .opened opening => .error (unterminated opening)
  | text :: rest =>
      let (tokens, comment) := lex line comment text
      match LineContext.instruction ⟨v, line, lineCount⟩ labels tokens with
      | .error fault => .error (fault.toFault line)
      | .ok (instruction, labels) =>
          match readLines v lineCount (line + 1) comment labels rest with
          | .error fault => .error fault
          | .ok (instructions, labels) => .ok (instruction :: instructions, labels)

/-- The lines of a source. A line feed at the end begins one more line. -/
def sourceLines (source : String) : List (List Char) :=
  Text.pieces (· == '\n') source.toList

/-- Read a source. -/
def ofSource (dialect : Dialect) (source : String) : Except Fault Draft := do
  let lines := sourceLines source
  let (instructions, labels) ← readLines dialect.vocabulary lines.length 0 .closed [] lines
  return ⟨dialect, instructions, labels⟩

end Draft

end PixelTurtle
