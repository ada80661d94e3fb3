/-
PixelTurtle.Terminal.Execute — carrying out a request.

A request is carried out in an `Environment`: the files, when an
interrupt is seen, and what is typed at the debugger. The result is an
`Outcome`, which holds all that was printed. Nothing is printed before a
failure.
-/
import PixelTurtle.Terminal.Debugger
import PixelTurtle.Terminal.Inputs

namespace PixelTurtle.Terminal

/-! ## Outcomes -/

/-- What a request did. -/
structure Outcome where
  code : Nat
  stdout : String
  stderr : String
  /-- What the debugger showed before the first and after each line
  typed. -/
  dialog : List String

/-- An outcome that only prints. -/
def Outcome.printed (code : Nat) (stdout : String) : Outcome :=
  ⟨code, stdout, "", [""]⟩

/-- What a request depends on besides its settings. -/
structure Environment where
  files : Files
  /-- Whether an interrupt is pending at the start. -/
  interrupted : Bool
  /-- How many frames go by before a later interrupt is seen. -/
  frames : Nat
  /-- The lines typed at the debugger; a missing one is an interrupt. -/
  script : List (Option String)

/-- How many frames a run has before an interrupt is seen. -/
def Environment.runFrames (env : Environment) : Nat :=
  if env.interrupted then 0 else env.frames

/-- The exit code of an interrupted run. -/
def interruptedCode : Nat := 130

/-- What is printed when a run has exited. -/
def exitLine (status : Status) : String :=
  s!"exit {status.toNat}\n"

/-- Run at full speed until the program exits or an interrupt is seen. -/
def runToExit (frame : Nat) : Nat → Machine → Outcome
  | 0, m => ⟨interruptedCode, "", s!"interrupted at line {m.line + 1}\n", [""]⟩
  | frames + 1, m =>
      let (m, r) := m.run frame
      match r.exit with
      | some status => .printed (exitCode status) (m.canvas.toText ++ exitLine status)
      | none => runToExit frame frames m

/-- A run that is watched. -/
structure Watching where
  machine : Machine
  clock : Clock

namespace Watching

/-- The picture of the run as it stands. -/
def picture (w : Watching) : String :=
  redraw w.machine w.clock.measured

/-- Run the budget of one frame. A new picture is drawn if anything
ran. -/
def frame (w : Watching) (elapsed : Int) : Watching × String × Option Status :=
  let (clock, budget) := w.clock.tick elapsed
  let (machine, r) := w.machine.run budget
  let w : Watching := ⟨machine, clock.consume r.executed⟩
  (w, (if 0 < r.executed then w.picture else "") ++ r.exit.elim "" exitLine, r.exit)

/-- The time between two frames: sixteen milliseconds. -/
def frameTime : Int := 16000000

/-- Run frames until the program exits or an interrupt is seen, after
what was printed before. -/
def frames : Nat → Watching → String → Outcome
  | 0, _, printed => .printed interruptedCode printed
  | n + 1, w, printed =>
      match w.frame frameTime with
      | (_, output, some status) => .printed (exitCode status) (printed ++ output)
      | (w, output, none) => frames n w (printed ++ output)

end Watching

/-- A run as fast as its clock allows, drawn while it goes. -/
def watchToExit (frames : Nat) (w : Watching) : Outcome :=
  w.frames frames w.picture

/-- Three stars, those not reached as points. -/
def starLine (stars : Nat) : String :=
  String.ofList ((List.range 3).map (fun i => if i < stars then '*' else '.'))

/-- What is printed of a score. -/
def scoreLines (score : Score) : String :=
  starLine score.stars ++ "\n" ++
  (if score.verdict.text.isEmpty then "" else score.verdict.text ++ "\n")

/-- What is printed of a grading. -/
def gradeOutcome (report : GradeReport) : Outcome :=
  let headline := bold report.text ++ "\n"
  match report with
  | .failed _ failure => .printed 1 (headline ++ failure.text ++ "\n")
  | .passed _ count score =>
      .printed 0 (headline ++ s!"{count} instructions\n" ++ score.elim "" scoreLines)

/-- The number of instructions of a known solution, if one is named. -/
def Files.target (files : Files) (s : Settings) : Except Failure (Option Nat) :=
  match s.solution with
  | none => .ok none
  | some path => (files.compile path s.compileOptions).map (fun p => some p.count)

namespace Request

/-- Show what a program compiles to. -/
def compile (env : Environment) (s : Settings) : Except Failure Outcome := do
  let program ← env.files.program s
  return .printed 0 (program.listing ++ s!"{program.count} instructions\n")

/-- Run a program. -/
def run (env : Environment) (s : Settings) : Except Failure Outcome := do
  let machine ← env.files.machine s
  if s.watch then return watchToExit env.runFrames ⟨machine, s.clock⟩
  else return runToExit (max (Clock.wholePart s.frameLimit) 1) env.runFrames machine

/-- Debug a program. An interrupt from before the session is forgotten. -/
def debug (env : Environment) (s : Settings) : Except Failure Outcome := do
  let machine ← env.files.machine s
  let t := (DebugSession.start machine s.breakpointLines).play env.frames env.script
  return ⟨t.session.code, "", "", t.outputs⟩

/-- Check a program against unit tests. -/
def check (env : Environment) (s : Settings) : Except Failure Outcome := do
  let program ← env.files.program s
  let tests ← env.files.unitTests s.tests
  let target ← env.files.target s
  let limits := { Limits.standard with maxInstructions := s.maxInstructions }
  return gradeOutcome (grade program tests target limits)

/-- Carry out a request. -/
def perform (r : Request) (env : Environment) : Except Failure Outcome :=
  match r.task with
  | .compile => compile env r.settings
  | .run => run env r.settings
  | .debug => debug env r.settings
  | .check => check env r.settings

end Request

/-- Read arguments and carry out what they ask for. -/
def execute (env : Environment) (arguments : List String) : Except Failure Outcome := do
  let request ← (Request.ofArguments arguments).mapError .refused
  request.perform env

/-! ## The process -/

/-- The name and version of the program. -/
def versionText : String := "tmlx 0.3.0\n"

/-- The commands of the program. -/
def usageText : String :=
  "Usage: tmlx <compile|run|debug|check> <FILE> [OPTIONS]\n"

/-- What the process does about a failure. -/
def Failure.outcome : Failure → Outcome
  | refused .version => .printed 0 versionText
  | refused .help => .printed 0 usageText
  | refused refusal => ⟨2, "", (Failure.refused refusal).message, [""]⟩
  | failure => ⟨1, "", bold failure.message ++ "\n", [""]⟩

/-- What the whole process does. Its exit code is kept in one byte. -/
def process (env : Environment) (arguments : List String) : Outcome :=
  match execute env arguments with
  | .ok outcome => { outcome with code := outcome.code % 256 }
  | .error failure => failure.outcome

end PixelTurtle.Terminal
