/-
PixelTurtle.Terminal.Debugger — a dialog over a running program.

A session holds the machine, the canvas it started on and the breakpoints.
`DebugSession.respond` answers one command and `DebugSession.reply` takes one
line; `DebugSession.play` answers a whole script.

The command `continue` runs in frames and looks for an interrupt after
each. How many frames go by before one is seen is given to the session
from outside.
-/
import PixelTurtle.Program.Listing
import PixelTurtle.Terminal.Paint

namespace PixelTurtle.Terminal

/-- The exit code of a process for the status of a program. -/
def exitCode (status : Status) : Nat :=
  min status.toNat 0x7fffffff

/-- What can be asked of the debugger. -/
inductive DebugCommand where
  | step (count : Nat)
  /-- `step` with something that is no number. -/
  | badCount (fault : Text.NumeralFault)
  | resume
  | setBreakpoint (line : Nat)
  | dropBreakpoint (line : Nat)
  | list
  | whereabouts
  | canvas
  | reset
  | quit
  | help
  deriving DecidableEq

namespace DebugCommand

/-- The command that a first word and a second one read as a number
mean. Lines are counted from one. -/
def ofWords (name : String) (argument : Option (Except Text.NumeralFault Nat)) : DebugCommand :=
  if name = "s" || name = "step" then
    match argument with
    | none => step 1
    | some (.ok count) => step count
    | some (.error fault) => badCount fault
  else if name = "c" || name = "continue" then resume
  else if name = "b" || name = "break" then
    match argument with
    | some (.ok (line + 1)) => setBreakpoint line
    | _ => help
  else if name = "d" || name = "delete" then
    match argument with
    | some (.ok (line + 1)) => dropBreakpoint line
    | _ => help
  else if name = "l" || name = "list" then list
  else if name = "w" || name = "where" then whereabouts
  else if name = "canvas" then canvas
  else if name = "reset" then reset
  else if name = "q" || name = "quit" then quit
  else help

/-- The command on a line, unless the line is blank. -/
def ofLine? (line : String) : Option DebugCommand :=
  match Text.words line.toList with
  | [] => none
  | name :: rest =>
      some (ofWords (String.ofList name) (rest.head?.map (Text.readNat Text.max64)))

/-- The summary of commands. -/
def helpText : String :=
  "step [n]     run n instructions, default 1\n" ++
  "continue     run to the next breakpoint or exit\n" ++
  "break <n>    stop on arriving at line n\n" ++
  "delete <n>   remove the breakpoint on line n\n" ++
  "list         show the program\n" ++
  "where        show the current line and cursor\n" ++
  "canvas       show the canvas\n" ++
  "reset        start over on the original canvas\n" ++
  "quit         leave the debugger"

end DebugCommand

/-- A program being debugged. -/
structure DebugSession where
  machine : Machine
  /-- The canvas that `reset` goes back to. -/
  initial : Canvas
  breakpoints : List Nat

namespace DebugSession

/-- What the line editor shows before each command. -/
def prompt : String := "(tmlx) "

/-- Instructions between two looks for an interrupt. -/
def frame : Nat := 100000

/-- A session that begins where a machine stands. -/
def start (machine : Machine) (breakpoints : List Nat) : DebugSession :=
  ⟨machine, machine.canvas, breakpoints⟩

/-- Where a machine stands: its line and cursor, or how it exited. -/
def current (m : Machine) : String :=
  match m.exitStatus? with
  | some status => s!"exited with {status.toNat}"
  | none =>
      let line := (m.program.listingLine? m.line).getD ""
      String.ofList (Text.trimStart line.toList) ++ s!"   cursor {m.cursor.x},{m.cursor.y}"

/-- What is shown before the first command. -/
def greeting (s : DebugSession) : String :=
  paintMachine s.machine ++ current s.machine ++ "\n"

/-- What is shown after a step. -/
def report (m : Machine) (r : StepReport) : String :=
  paintMachine m ++
  (if r.breakpoint then s!"breakpoint, line {m.line + 1}\n" else "") ++
  s!"{r.executed} instructions, " ++ current m ++ "\n"

/-- Run in frames to a breakpoint or an exit, or through one more frame
after as many as go by without an interrupt. The report is that of the
last frame. -/
def resumeMachine (breakpoints : List Nat) : Nat → Machine → Machine × StepReport
  | 0, m => m.step frame breakpoints
  | frames + 1, m =>
      let (m, r) := m.step frame breakpoints
      if r.exit.isSome || r.breakpoint then (m, r) else resumeMachine breakpoints frames m

/-- Add a breakpoint. -/
def addBreakpoint (breakpoints : List Nat) (line : Nat) : List Nat :=
  if breakpoints.contains line then breakpoints else line :: breakpoints

/-- Remove a breakpoint. -/
def removeBreakpoint (breakpoints : List Nat) (line : Nat) : List Nat :=
  breakpoints.filter (· != line)

/-- The sign in front of a line of the program. -/
def marker (s : DebugSession) (line : Nat) : String :=
  if line = s.machine.line then ">"
  else if s.breakpoints.contains line then "*"
  else " "

/-- The program with its current line and its breakpoints. -/
def listing (s : DebugSession) : String :=
  let program := s.machine.program
  String.join (program.code.toList.mapIdx (fun line i =>
    s.marker line ++ program.listingLine line i ++ "\n"))

/-- Answer a command other than `quit`, which changes nothing. -/
def respond (frames : Nat) (s : DebugSession) : DebugCommand → DebugSession × String
  | .step count =>
      let (m, r) := s.machine.step count s.breakpoints
      ({ s with machine := m }, report m r)
  | .badCount fault => (s, fault.message ++ "\n")
  | .resume =>
      let (m, r) := resumeMachine s.breakpoints frames s.machine
      ({ s with machine := m }, report m r)
  | .setBreakpoint line => ({ s with breakpoints := addBreakpoint s.breakpoints line }, "")
  | .dropBreakpoint line => ({ s with breakpoints := removeBreakpoint s.breakpoints line }, "")
  | .list => (s, s.listing)
  | .whereabouts => (s, current s.machine ++ "\n")
  | .canvas => (s, paintMachine s.machine)
  | .reset =>
      let m := s.machine.reset s.initial
      ({ s with machine := m }, current m ++ "\n")
  | .quit => (s, "")
  | .help => (s, DebugCommand.helpText ++ "\n")

/-- The exit code of a session that is left. -/
def code (s : DebugSession) : Nat :=
  s.machine.exitStatus?.elim 0 exitCode

/-- What comes of a line that was read. -/
inductive Reply where
  /-- The line is blank. -/
  | ignored
  /-- The session is left. -/
  | left
  /-- The session goes on after some output. -/
  | answered (session : DebugSession) (output : String)

/-- Take a line that was read. -/
def reply (frames : Nat) (s : DebugSession) (line : String) : Reply :=
  match DebugCommand.ofLine? line with
  | none => .ignored
  | some .quit => .left
  | some command =>
      let (s, output) := s.respond frames command
      .answered s output

end DebugSession

/-- What became of a session: what was shown before and after each line
read, the lines that were commands, and the session at the end. -/
structure Transcript where
  outputs : List String
  history : List String
  session : DebugSession

namespace DebugSession

/-- Answer the lines of a script. A line that is missing is an interrupt
at the prompt, which ends the session. -/
def answer (frames : Nat) (s : DebugSession) : List (Option String) → Transcript
  | [] => ⟨[], [], s⟩
  | none :: _ => ⟨[""], [], s⟩
  | some line :: rest =>
      match s.reply frames line with
      | .ignored =>
          let t := s.answer frames rest
          { t with outputs := "" :: t.outputs }
      | .left => ⟨[""], [line], s⟩
      | .answered s output =>
          let t := s.answer frames rest
          { t with outputs := output :: t.outputs, history := line :: t.history }

/-- A whole session on a script. -/
def play (frames : Nat) (s : DebugSession) (script : List (Option String)) : Transcript :=
  let t := s.answer frames script
  { t with outputs := s.greeting :: t.outputs }

end DebugSession

end PixelTurtle.Terminal
