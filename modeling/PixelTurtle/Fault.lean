/-
PixelTurtle.Fault — what the library reports when a source or a canvas is
rejected: the kind of fault, where it was found, and the complaint.

Positions are counted from zero and shown counted from one.
-/
namespace PixelTurtle

/-- The kinds of fault. -/
inductive FaultCode where
  | badSyntax
  | undefinedLabel
  | unterminatedComment
  | infiniteLoop
  | invalidCanvas
  deriving DecidableEq

namespace FaultCode

/-- The short name of a kind of fault. -/
def name : FaultCode → String
  | badSyntax => "syntax error"
  | undefinedLabel => "undefined label"
  | unterminatedComment => "unterminated comment"
  | infiniteLoop => "infinite loop"
  | invalidCanvas => "invalid canvas"

/-- The name of a kind of fault as a single word. -/
def word : FaultCode → String
  | badSyntax => "SyntaxError"
  | undefinedLabel => "UndefinedLabel"
  | unterminatedComment => "UnterminatedComment"
  | infiniteLoop => "InfiniteLoop"
  | invalidCanvas => "InvalidCanvas"

/-- What is said when a fault brings no complaint of its own. -/
def complaint : FaultCode → String
  | badSyntax => "syntax error"
  | undefinedLabel => "undefined label"
  | unterminatedComment => "block comment is not terminated"
  | infiniteLoop => "found infinite loop without moving"
  | invalidCanvas => "invalid canvas"

end FaultCode

/-- A rejection. `line` and `word` are counted from zero; `detail` is the
complaint, empty when the kind says it all. -/
structure Fault where
  code : FaultCode
  line : Option Nat
  word : Option Nat
  detail : String
  deriving DecidableEq

namespace Fault

/-- The complaint without its position. -/
def complaint (f : Fault) : String :=
  if f.detail.isEmpty then f.code.complaint else f.detail

/-- A position as it is shown, counted from one in 64 bits. -/
def shown (position : Nat) : Nat :=
  (position + 1) % UInt64.size

/-- The complaint with its position. A word without a line is not shown. -/
def message (f : Fault) : String :=
  match f.line, f.word with
  | some line, some word => s!"Line {shown line}, word {shown word}: {f.complaint}"
  | some line, none => s!"Line {shown line}: {f.complaint}"
  | none, _ => f.complaint

/-- The fault as a tagged record, for diagnosis. -/
def inspect (f : Fault) : String :=
  "Error \x7b " ++ f.code.word ++ ": " ++ f.message ++ " \x7d"

end Fault

end PixelTurtle
