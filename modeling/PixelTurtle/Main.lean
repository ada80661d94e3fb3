/-
PixelTurtle.Main — the command line program.

It reads the files that a request names, lets the request be carried out
and prints the outcome. A run that is watched and a debugger session go on
while the program waits or the user types, so they are carried out piece
by piece.
-/
import PixelTurtle.Terminal.Execute

namespace PixelTurtle.Terminal

/-- Whether a system error has a given number. It may be kept negated. -/
def isNumber (code number : UInt32) : Bool :=
  code == number || code == -number

/-- The read fault that an error of the system is. -/
def ReadFault.ofError (fault : IO.Error) : ReadFault :=
  match fault with
  | .noFileOrDirectory .. => .notFound
  | .inappropriateType _ code _ => if isNumber code 21 then .isDirectory else .notDirectory
  | .invalidArgument _ code _ =>
      if isNumber code 36 then .nameTooLong else .other (toString fault)
  | _ => .other (toString fault)

/-- Read a file of the file system. -/
def readNow (path : String) : IO (Except ReadFault String) := do
  try
    let bytes ← IO.FS.readBinFile path
    return Files.decode bytes
  catch fault => return .error (.ofError fault)

/-- Read the files that a request names. -/
def collectFiles (paths : List String) : IO Files := do
  let entries ← paths.mapM (fun path => do return (path, ← readNow path))
  return .ofTable entries

/-- More frames than any run takes. -/
def manyFrames : Nat := 1 <<< 62

/-- Print an outcome. Gives its exit code. -/
def printOutcome (o : Outcome) : IO UInt32 := do
  IO.print o.stdout
  (← IO.getStdout).flush
  IO.eprint o.stderr
  return UInt32.ofNat o.code

/-- Run frame after frame, paced by the clock. -/
partial def watchNow (w : Watching) (last : Nat) : IO UInt32 := do
  let now ← IO.monoNanosNow
  let (w, output, exit) := w.frame ((now : Int) - last)
  IO.print output
  (← IO.getStdout).flush
  match exit with
  | some status => return UInt32.ofNat (exitCode status)
  | none =>
      IO.sleep 16
      watchNow w now

/-- Read commands and answer them until the session is left. -/
partial def debugNow (s : DebugSession) : IO UInt32 := do
  IO.print DebugSession.prompt
  (← IO.getStdout).flush
  let line ← (← IO.getStdin).getLine
  if line.isEmpty then return UInt32.ofNat s.code
  match s.reply manyFrames line with
  | .ignored => debugNow s
  | .left => return UInt32.ofNat s.code
  | .answered s output =>
      IO.print output
      debugNow s

/-- Carry out a request. -/
def performNow (r : Request) : IO UInt32 := do
  let files ← collectFiles r.paths
  let s := r.settings
  let interactive := r.task = .debug || (r.task = .run && s.watch)
  if interactive then
    match files.machine s with
    | .error failure => printOutcome failure.outcome
    | .ok machine =>
        if r.task = .debug then
          let session := DebugSession.start machine s.breakpointLines
          IO.print session.greeting
          debugNow session
        else
          let w : Watching := ⟨machine, s.clock⟩
          IO.print w.picture
          watchNow w (← IO.monoNanosNow)
  else
    match r.perform ⟨files, false, manyFrames, []⟩ with
    | .error failure => printOutcome failure.outcome
    | .ok outcome => printOutcome outcome

end PixelTurtle.Terminal

open PixelTurtle.Terminal in
/-- Read the arguments and carry out what they ask for. -/
def main (arguments : List String) : IO UInt32 := do
  match Request.ofArguments arguments with
  | .error refusal => printOutcome (Failure.refused refusal).outcome
  | .ok request => performNow request
