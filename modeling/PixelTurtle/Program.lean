/-
PixelTurtle.Program — a source compiled to a program.

`Program.compile` reads the source, links it, collapses placeholders and,
unless told otherwise, folds chains that do not move. `Program.entry` says
where a run begins.
-/
import PixelTurtle.Code.Fold

namespace PixelTurtle

/-- How to compile a source. -/
structure CompileOptions where
  dialect : Dialect
  /-- Whether chains that do not move are folded. -/
  optimize : Bool
  /-- Overrides the dialect's own strictness. -/
  strictness : Option Strictness
  deriving DecidableEq

namespace CompileOptions

/-- The options of a dialect. -/
def ofDialect (dialect : Dialect) : CompileOptions :=
  ⟨dialect, true, none⟩

/-- The options of a source that asks for nothing special. -/
def standard : CompileOptions :=
  ofDialect .standard

/-- The strictness in force. -/
def effectiveStrictness (o : CompileOptions) : Strictness :=
  o.strictness.getD o.dialect.vocabulary.strictness

end CompileOptions

/-- A compiled program. -/
structure Program where
  code : Code
  labels : Labels
  /-- How many source lines hold an instruction. -/
  count : Nat
  dialect : Dialect
  deriving DecidableEq

namespace Program

/-- The lines of a linked program as its run wants them. -/
def passes (options : CompileOptions) (linked : Code) : Except Fault Code :=
  let collapsed := linked.collapse
  if options.optimize then collapsed.fold options.effectiveStrictness else .ok collapsed

/-- Compile a source. -/
def compile (options : CompileOptions) (source : String) : Except Fault Program := do
  let draft ← Draft.ofSource options.dialect source
  let linked ← draft.link
  let code ← passes options linked
  return ⟨code, draft.labels, draft.count, options.dialect⟩

/-- The number of lines. -/
def size (p : Program) : Nat :=
  p.code.size

/-- Follow placeholders from a target for at most `steps` lines. -/
def follow (code : Code) : Nat → Target → Target
  | 0, target => target
  | _ + 1, .exit status => .exit status
  | steps + 1, .jump line =>
      match code[line]? with
      | none => .exit 0
      | some instruction =>
          match instruction.kind with
          | .placeholder => follow code steps instruction.white.target
          | _ => .jump line

/-- Where a run begins: the first line, or where its placeholders lead. -/
def entry (p : Program) : Target :=
  follow p.code (p.code.size + 1) (.jump 0)

end Program

end PixelTurtle
