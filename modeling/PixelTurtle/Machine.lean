/-
PixelTurtle.Machine — a program running on a canvas.

`Machine.tick` executes one instruction: the pixel under the cursor
selects an action, which writes, moves and then jumps or exits. A move off
the canvas ends the run with status 2; the write before it stays and the
cursor does not move. `Machine.step` executes instructions up to a budget
and stops early at an exit or on arriving at a breakpoint.
-/
import PixelTurtle.Program
import PixelTurtle.Canvas
import PixelTurtle.Coverage

namespace PixelTurtle

/-- The status of a run that leaves the canvas. -/
def edgeStatus : Status := 2

/-- A column and a row, rows counted up from the bottom. -/
structure Cursor where
  x : Nat
  y : Nat
  deriving DecidableEq

namespace Cursor

/-- The bottom left corner, where every run starts. -/
def origin : Cursor := ⟨0, 0⟩

/-- Move one pixel, unless that leaves a canvas of the given size. -/
def move? (c : Cursor) (direction : Direction) (width height : Nat) : Option Cursor :=
  match direction with
  | .nowhere => some c
  | .up => if c.y + 1 < height then some ⟨c.x, c.y + 1⟩ else none
  | .down => if 0 < c.y then some ⟨c.x, c.y - 1⟩ else none
  | .left => if 0 < c.x then some ⟨c.x - 1, c.y⟩ else none
  | .right => if c.x + 1 < width then some ⟨c.x + 1, c.y⟩ else none

end Cursor

/-- How far a run is. -/
inductive RunState where
  /-- Reset and not yet stepped. -/
  | idle
  | running
  | exited (status : Status)
  deriving DecidableEq

/-- A program, the canvas it draws on, and how far it is. -/
structure Machine where
  program : Program
  canvas : Canvas
  /-- The line that runs next. -/
  line : Nat
  cursor : Cursor
  state : RunState
  /-- Instructions executed since the last reset. -/
  executed : Nat
  coverage : Coverage
  deriving DecidableEq

/-- What one call of `Machine.step` did. -/
structure StepReport where
  executed : Nat
  exit : Option Status
  /-- Whether it stopped on arriving at a breakpoint. -/
  breakpoint : Bool
  deriving DecidableEq

namespace Machine

/-- Start over on a canvas. Coverage is kept. -/
def reset (m : Machine) (canvas : Canvas) : Machine :=
  match m.program.entry with
  | .jump line =>
      { m with canvas := canvas, line := line, cursor := .origin, state := .idle, executed := 0 }
  | .exit status =>
      { m with canvas := canvas, line := 0, cursor := .origin, state := .exited status,
               executed := 0 }

/-- A program about to run on a canvas. -/
def start (program : Program) (canvas : Canvas) : Machine :=
  reset ⟨program, canvas, 0, .origin, .idle, 0, .none program.size⟩ canvas

/-- Forget what was covered. -/
def clearCoverage (m : Machine) : Machine :=
  { m with coverage := m.coverage.clear }

/-- The status the run ended with. -/
def exitStatus? (m : Machine) : Option Status :=
  match m.state with
  | .exited status => some status
  | _ => none

/-- Whether the run has ended. -/
def isExited (m : Machine) : Bool :=
  m.exitStatus?.isSome

/-- The pixel under the cursor. -/
def pixel (m : Machine) : Color :=
  m.canvas.pixelAt (m.canvas.offset m.cursor.x m.cursor.y)

/-- The action that runs next. -/
def nextAction (m : Machine) : Action Target :=
  m.program.code.action m.line (Slot.of m.pixel)

/-- Paint the pixel at an offset if there is something to write. -/
def applyWrite (canvas : Canvas) (offset : Nat) : Option Color → Canvas
  | some color => canvas.put offset color
  | none => canvas

/-- Execute one instruction. -/
def tick : Machine → Machine
  | ⟨program, canvas, line, cursor, state, executed, coverage⟩ =>
      let offset := canvas.offset cursor.x cursor.y
      let slot := Slot.of (canvas.pixelAt offset)
      let action := program.code.action line slot
      let canvas := applyWrite canvas offset action.write
      let coverage := coverage.cover line slot
      match cursor.move? action.direction canvas.width canvas.height with
      | none =>
          ⟨program, canvas, line, cursor, .exited edgeStatus, executed + 1, coverage⟩
      | some cursor =>
          match action.target with
          | .exit status =>
              ⟨program, canvas, line, cursor, .exited status, executed + 1, coverage⟩
          | .jump line => ⟨program, canvas, line, cursor, state, executed + 1, coverage⟩

/-- Execute up to `budget` more instructions after `executed` of this
call. -/
def steps (breakpoints : List Nat) : Nat → Nat → Machine → Machine × StepReport
  | 0, executed, m => (m, ⟨executed, none, false⟩)
  | budget + 1, executed, m =>
      let m := m.tick
      match m.state with
      | .exited status => (m, ⟨executed + 1, some status, false⟩)
      | _ =>
          if breakpoints.contains m.line then (m, ⟨executed + 1, none, true⟩)
          else steps breakpoints budget (executed + 1) m

/-- Execute up to `budget` instructions. Stops after an exit, or after a
jump onto a breakpoint. A run that has ended stays as it is. -/
def step (m : Machine) (budget : Nat) (breakpoints : List Nat) : Machine × StepReport :=
  match m.state with
  | .exited status => (m, ⟨0, some status, false⟩)
  | _ => steps breakpoints budget 0 { m with state := .running }

/-- Execute up to `budget` instructions without breakpoints. -/
def run (m : Machine) (budget : Nat) : Machine × StepReport :=
  m.step budget []

/-- The percentage of the program that ran. -/
def percentage (m : Machine) : Nat :=
  m.coverage.percentage m.program.code.kinds

/-- The mark of each line. -/
def marks (m : Machine) : List Mark :=
  m.program.code.kinds.mapIdx (fun line kind => m.coverage.mark line kind)

end Machine

end PixelTurtle
