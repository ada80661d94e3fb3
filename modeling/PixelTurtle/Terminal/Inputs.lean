/-
PixelTurtle.Terminal.Inputs — programs, canvases and unit tests read from
the files that a request names.

Everything that can go wrong before a request is carried out is a
`Failure`. A unit test is written `INPUT[,OUTPUT]=STATUS`.
-/
import PixelTurtle.Canvas.Drawing
import PixelTurtle.Canvas.Random
import PixelTurtle.Grade
import PixelTurtle.Terminal.Files
import PixelTurtle.Terminal.Request

namespace PixelTurtle.Terminal

/-- Why a unit test on the command line is none. -/
inductive TestArgumentFault where
  | noStatus (argument : String)
  | badStatus (status : String)
  deriving DecidableEq

/-- The wording of a test argument fault. -/
def TestArgumentFault.message : TestArgumentFault → String
  | noStatus argument => "'" ++ argument ++ "' is missing '=STATUS'"
  | badStatus status => "'" ++ status ++ "' is not a valid exit status"

/-- Why a request was not carried out. -/
inductive Failure where
  /-- The arguments were refused. -/
  | refused (refusal : Refusal)
  /-- A file could not be read. -/
  | unreadable (path : String) (fault : ReadFault)
  /-- A source or a canvas was rejected; the file it was read from, if
  any. -/
  | rejected (path : Option String) (fault : Fault)
  | badTest (fault : TestArgumentFault)
  deriving DecidableEq

/-- The wording of a failure. Refused arguments are not explained. -/
def Failure.message : Failure → String
  | refused _ => "usage error"
  | unreadable path fault => path ++ ": " ++ fault.message
  | rejected (some path) fault => path ++ ": " ++ fault.message
  | rejected none fault => fault.message
  | badTest fault => fault.message

/-! ## Files -/

/-- Read a file. -/
def Files.read (files : Files) (path : String) : Except Failure String :=
  (files path).mapError (Failure.unreadable path)

/-- Compile a file. -/
def Files.compile (files : Files) (path : String) (options : CompileOptions) :
    Except Failure Program := do
  let source ← files.read path
  (Program.compile options source).mapError (fun fault => Failure.rejected (some path) fault)

/-- Read a canvas from a file. -/
def Files.canvas (files : Files) (path : String) : Except Failure Canvas := do
  let text ← files.read path
  (Canvas.ofText text).mapError (fun flaw => Failure.rejected (some path) flaw.toFault)

/-- The parts of `INPUT[,OUTPUT]=STATUS`. The last equals sign counts, and
the first comma. -/
structure TestArgument where
  input : String
  output : Option String
  exitStatus : Status
  deriving DecidableEq

namespace TestArgument

/-- Take a test argument apart. -/
def read (argument : String) : Except TestArgumentFault TestArgument :=
  let backward := argument.toList.reverse
  match backward.dropWhile (· != '=') with
  | [] => .error (.noStatus argument)
  | _ :: before =>
      let status := (backward.takeWhile (· != '=')).reverse
      let files := before.reverse
      let input := String.ofList (files.takeWhile (· != ','))
      let output :=
        match files.dropWhile (· != ',') with
        | [] => none
        | _ :: output => some (String.ofList output)
      match Text.readNat Text.max32 (Text.trim status) with
      | .error _ => .error (.badStatus (String.ofList status))
      | .ok number => .ok ⟨input, output, UInt32.ofNat number⟩

end TestArgument

/-- Read the unit test that an argument describes. -/
def Files.unitTest (files : Files) (argument : String) : Except Failure UnitTest := do
  let parts ← (TestArgument.read argument).mapError .badTest
  let input ← files.canvas parts.input
  match parts.output with
  | none => return ⟨input, none, parts.exitStatus⟩
  | some path =>
      let output ← files.canvas path
      return ⟨input, some output, parts.exitStatus⟩

/-- Read several unit tests. The first that fails decides. -/
def Files.unitTests (files : Files) : List String → Except Failure (List UnitTest)
  | [] => .ok []
  | argument :: rest => do
      let test ← files.unitTest argument
      let others ← files.unitTests rest
      return test :: others

/-- The size of a canvas when none is asked for. -/
def standardSize : Nat × Nat := (16, 16)

/-- The canvas that settings ask for. -/
def Files.startCanvas (files : Files) (s : Settings) : Except Failure Canvas :=
  match s.canvas with
  | some path => files.canvas path
  | none =>
      let (width, height) := s.size.getD standardSize
      let made :=
        match s.seed with
        | some seed => Canvas.seeded (UInt64.ofNat seed) width height s.dialect.inks
        | none => Canvas.blank width height
      made.mapError (fun flaw => Failure.rejected none flaw.toFault)

/-- The program that settings ask for. -/
def Files.program (files : Files) (s : Settings) : Except Failure Program :=
  files.compile s.file s.compileOptions

/-- The program that settings ask for, on its canvas. -/
def Files.machine (files : Files) (s : Settings) : Except Failure Machine := do
  let program ← files.program s
  let canvas ← files.startCanvas s
  return .start program canvas

/-- The files that a request reads. -/
def Request.paths (r : Request) : List String :=
  let s := r.settings
  let tests := s.tests.flatMap (fun argument =>
    match TestArgument.read argument with
    | .ok parts => parts.input :: parts.output.toList
    | .error _ => [])
  s.file :: (s.canvas.toList ++ tests ++ s.solution.toList)

end PixelTurtle.Terminal
