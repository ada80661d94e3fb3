/-
PixelTurtle.Grade — grading a program against unit tests.

Each test is run from a fresh reset, in frames, up to a limit. The first
test that fails decides the report: it did not exit within the limit, or
exited with another status than expected, or left another canvas. A
program that passes is reported with its coverage over all tests and, if
the size of a known solution is given, with a score.
-/
import PixelTurtle.Machine

namespace PixelTurtle

/-- Run on `input`; expect a status and, if given, a canvas. -/
structure UnitTest where
  input : Canvas
  output : Option Canvas
  exitStatus : Status
  deriving DecidableEq

/-- How long a test may run, and how much of it at a time. -/
structure Limits where
  maxInstructions : Nat
  frame : Nat
  deriving DecidableEq

/-- The usual limits. -/
def Limits.standard : Limits :=
  ⟨10000000, 100000⟩

/-- Why a test failed. -/
inductive TestFailure where
  | exitStatus (expected actual : Status)
  | output
  | timedOut
  deriving DecidableEq

/-- The wording of a failure. -/
def TestFailure.text : TestFailure → String
  | exitStatus expected actual => s!"expected exit {expected.toNat}, got exit {actual.toNat}"
  | output => "canvas does not match"
  | timedOut => "did not exit"

/-- How a program compares with the known solution. -/
inductive Verdict where
  | longer
  | shortest
  /-- It is shorter than the known solution. -/
  | unknown
  deriving DecidableEq

namespace Verdict

/-- The wording of a verdict. -/
def text : Verdict → String
  | longer => ""
  | shortest => "You found the shortest solution!"
  | unknown => "Congratulations, you found an unknown solution."

/-- The verdict on a program of `count` instructions. -/
def of (count target : Nat) : Verdict :=
  if target < count then longer else if count = target then shortest else unknown

end Verdict

/-- Stars and a verdict. -/
structure Score where
  stars : Nat
  verdict : Verdict
  deriving DecidableEq

/-- Three stars for at most `target` instructions, two up to half as many
again, one up to twice as many. Counts are compared as floating point
numbers. -/
def starsFor (count target : Nat) : Nat :=
  let count := (UInt64.ofNat count).toFloat
  let target := (UInt64.ofNat target).toFloat
  if count > target * 2.0 then 0
  else if count > target * 1.5 then 1
  else if count > target then 2
  else 3

/-- The score of a program of `count` instructions. -/
def Score.of (count target : Nat) : Score :=
  ⟨starsFor count target, .of count target⟩

/-- What grading found. -/
inductive GradeReport where
  /-- The first failing test, counted from zero. -/
  | failed (test : Nat) (failure : TestFailure)
  | passed (coverage count : Nat) (score : Option Score)
  deriving DecidableEq

/-- The headline of a report. -/
def GradeReport.text : GradeReport → String
  | failed test _ => s!"Unit Test {test + 1} Failed!"
  | passed coverage _ _ => s!"{coverage}% Coverage"

namespace Machine

/-- Run frame by frame until the run exits or the limit is reached. The
first argument bounds the number of frames; every frame executes an
instruction, so the limit itself is bound enough. -/
def runFrames (limits : Limits) : Nat → Machine → Machine
  | 0, m => m
  | frames + 1, m =>
      if m.isExited then m
      else if limits.maxInstructions ≤ m.executed then m
      else
        let budget := min (max limits.frame 1) (limits.maxInstructions - m.executed)
        runFrames limits frames (m.run budget).1

/-- Run until the run exits or the limit is reached. -/
def runWithin (limits : Limits) (m : Machine) : Machine :=
  runFrames limits (limits.maxInstructions + 1) m

end Machine

namespace UnitTest

/-- What a finished run lacks. -/
def verify (t : UnitTest) (m : Machine) : Option TestFailure :=
  match m.exitStatus? with
  | none => some .timedOut
  | some status =>
      if status ≠ t.exitStatus then some (.exitStatus t.exitStatus status)
      else
        match t.output with
        | none => none
        | some output => if output = m.canvas then none else some .output

/-- Run the tests from number `index` on, the coverage of each added to
that of the tests before. -/
def runAll (limits : Limits) (index : Nat) (m : Machine) :
    List UnitTest → Except (Nat × TestFailure) Machine
  | [] => .ok m
  | test :: rest =>
      let m := (m.reset test.input).runWithin limits
      match test.verify m with
      | some failure => .error (index, failure)
      | none => runAll limits (index + 1) m rest

end UnitTest

/-- Grade a program. `target` is the size of the known solution. -/
def grade (program : Program) (tests : List UnitTest) (target : Option Nat)
    (limits : Limits) : GradeReport :=
  let score := target.map (Score.of program.count)
  match tests with
  | [] => .passed 0 program.count score
  | first :: _ =>
      match UnitTest.runAll limits 0 (.start program first.input) tests with
      | .error (test, failure) => .failed test failure
      | .ok m => .passed m.percentage program.count score

end PixelTurtle
