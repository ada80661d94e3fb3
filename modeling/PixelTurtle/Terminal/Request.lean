/-
PixelTurtle.Terminal.Request — what the command line asks for.

There are four tasks: compile a program and show it, run it, debug it, or
check it against unit tests. `Request.ofArguments` reads the arguments of
the process.
-/
import PixelTurtle.Program
import PixelTurtle.Clock
import PixelTurtle.Text.Blank
import PixelTurtle.Text.Decimal
import PixelTurtle.Terminal.Arguments

namespace PixelTurtle.Terminal

/-- What to do with a program. -/
inductive Task where
  | compile
  | run
  | debug
  | check
  deriving DecidableEq

/-- The task that a word names. -/
def Task.ofName? : String → Option Task
  | "compile" => some .compile
  | "run" => some .run
  | "debug" => some .debug
  | "check" => some .check
  | _ => none

/-- All that can be set on the command line. -/
structure Settings where
  /-- The source file. -/
  file : String
  dialect : Dialect
  noOptimize : Bool
  strict : Bool
  permissive : Bool
  /-- The file of the canvas, if it is read from one. -/
  canvas : Option String
  size : Option (Nat × Nat)
  seed : Option Nat
  rate : Float
  turbo : Bool
  turboFactor : Float
  frameLimit : Float
  watch : Bool
  /-- Breakpoints, lines counted from one. -/
  breakpoints : List Nat
  tests : List String
  /-- The source file of a known solution. -/
  solution : Option String
  maxInstructions : Nat

namespace Settings

/-- The settings before any argument is read. -/
def standard : Settings where
  file := ""
  dialect := .standard
  noOptimize := false
  strict := false
  permissive := false
  canvas := none
  size := none
  seed := none
  rate := Clock.standardRate
  turbo := false
  turboFactor := Clock.standardTurboFactor
  frameLimit := Clock.standardFrameLimit
  watch := false
  breakpoints := []
  tests := []
  solution := none
  maxInstructions := 10000000

/-- The compile options that are asked for. -/
def compileOptions (s : Settings) : CompileOptions where
  dialect := s.dialect
  optimize := !s.noOptimize
  strictness :=
    if s.strict then some .strict else if s.permissive then some .permissive else none

/-- The clock of a run that is watched. -/
def clock (s : Settings) : Clock :=
  (Clock.make s.rate s.turboFactor s.frameLimit).setTurbo s.turbo

/-- The breakpoints counted from zero. Line 0 does not exist. -/
def breakpointLines (s : Settings) : List Nat :=
  (s.breakpoints.filter (0 < ·)).map (· - 1)

end Settings

/-! ## Values -/

/-- Why a text is no canvas size. -/
inductive SizeFault where
  | noCross (text : String)
  | numeral (fault : Text.NumeralFault)
  | empty
  deriving DecidableEq

/-- The wording of a size fault. -/
def SizeFault.message : SizeFault → String
  | noCross text => "'" ++ text ++ "' is not WIDTHxHEIGHT"
  | numeral fault => fault.message
  | empty => "canvas is empty"

/-- Read one side of a size. -/
def readSide (text : List Char) : Except SizeFault Nat :=
  (Text.readNat Text.max64 (Text.trim text)).mapError .numeral

/-- Whether a letter stands between width and height. -/
def isCross (c : Char) : Bool :=
  c == 'x' || c == 'X'

/-- Read a canvas size such as `16x9`. -/
def readSize (text : String) : Except SizeFault (Nat × Nat) :=
  match text.toList.dropWhile (fun c => !isCross c) with
  | [] => .error (.noCross text)
  | _ :: behind => do
      let width ← readSide (text.toList.takeWhile (fun c => !isCross c))
      let height ← readSide behind
      if width = 0 ∨ height = 0 then .error .empty else return (width, height)

/-- Read a whole number of 64 bits. -/
def readCount (text : String) : Except Refusal Nat :=
  (Text.readNat Text.max64 text.toList).mapError (fun _ => .unreadableValue)

/-- Read a rate. -/
def readRate (text : String) : Except Refusal Float :=
  match Text.readFloat? text.toList with
  | some rate => .ok rate
  | none => .error .unreadableValue

/-- Read a file name, which may not be empty. -/
def readPath (text : String) : Except Refusal String :=
  if text.isEmpty then .error .invalidValue else .ok text

/-! ## Parameters -/

/-- A parameter that switches something on. -/
def switchOn (name : String) (letter : Option Char) (turn : Settings → Settings) :
    Parameter Settings :=
  ⟨name, letter, false, .switch turn⟩

/-- A parameter that sets something once. -/
def setting {α : Type} (name : String) (read : String → Except Refusal α)
    (put : α → Settings → Settings) : Parameter Settings :=
  ⟨name, none, false, .value (fun text s => (read text).map (fun value => put value s))⟩

/-- Help on a command. -/
def helpParameter : Parameter Settings :=
  ⟨"help", some 'h', false, .ask .help⟩

/-- How to compile. -/
def sourceParameters : List (Parameter Settings) :=
  [ setting "dialect"
      (fun text => match Dialect.ofName? text with
        | some dialect => .ok dialect
        | none => .error .invalidValue)
      (fun dialect s => { s with dialect := dialect }),
    switchOn "no-optimize" none (fun s => { s with noOptimize := true }),
    switchOn "strict" none (fun s => { s with strict := true }),
    switchOn "permissive" none (fun s => { s with permissive := true }) ]

/-- What to draw on. -/
def canvasParameters : List (Parameter Settings) :=
  [ setting "canvas" readPath (fun path s => { s with canvas := some path }),
    setting "size" (fun text => (readSize text).mapError (fun _ => .unreadableValue))
      (fun size s => { s with size := some size }),
    setting "seed" readCount (fun seed s => { s with seed := some seed }) ]

/-- How fast to run. -/
def speedParameters : List (Parameter Settings) :=
  [ setting "ips" readRate (fun rate s => { s with rate := rate }),
    switchOn "turbo" none (fun s => { s with turbo := true }),
    setting "turbo-multiplier" readRate (fun factor s => { s with turboFactor := factor }),
    setting "max-ipf" readRate (fun limit s => { s with frameLimit := limit }) ]

/-- Whether to watch a run. -/
def watchParameter : Parameter Settings :=
  switchOn "watch" (some 'w') (fun s => { s with watch := true })

/-- Where to stop. May be given several times. -/
def breakParameter : Parameter Settings :=
  ⟨"break", some 'b', true, .value (fun text s =>
    (readCount text).map (fun line => { s with breakpoints := s.breakpoints ++ [line] }))⟩

/-- What to check. The tests may be several. -/
def checkParameters : List (Parameter Settings) :=
  [ ⟨"test", none, true, .value (fun text s => .ok { s with tests := s.tests ++ [text] })⟩,
    setting "solution" readPath (fun path s => { s with solution := some path }),
    setting "max-instructions" readCount (fun n s => { s with maxInstructions := n }) ]

namespace Task

/-- The parameters of a task. -/
def parameters : Task → List (Parameter Settings)
  | compile => helpParameter :: sourceParameters
  | run =>
      helpParameter :: watchParameter ::
        (sourceParameters ++ canvasParameters ++ speedParameters)
  | debug => helpParameter :: breakParameter :: (sourceParameters ++ canvasParameters)
  | check => helpParameter :: (sourceParameters ++ checkParameters)

/-- The arguments of a task: its parameters, and the source file. -/
def usage (t : Task) : Usage Settings where
  parameters := t.parameters
  operand := fun text s => (readPath text).map (fun path => { s with file := path })

/-- Parameters that exclude each other. -/
def exclusions : List (String × String) :=
  [("strict", "permissive"), ("canvas", "size"), ("canvas", "seed")]

/-- Whether what a task needs was given. -/
def isComplete (t : Task) (s : ArgumentState Settings) : Bool :=
  s.hasOperand && (t != check || s.given.contains "test")

/-- Read the arguments of a task. -/
def settings (t : Task) (words : List String) : Except Refusal Settings := do
  let s ← t.usage.read .standard words
  if exclusions.any (fun pair => s.given.contains pair.1 && s.given.contains pair.2) then
    .error .conflict
  else if !t.isComplete s then .error .missingParameter
  else return s.settings

end Task

/-! ## Requests -/

/-- A task and its settings. -/
structure Request where
  task : Task
  settings : Settings

namespace Request

/-- What a call of `help` is answered with: help on the program or on one
of its commands. -/
def helpFor : List String → Refusal
  | [] => .help
  | [word] => if (Task.ofName? word).isSome || word = "help" then .help else .unknownCommand
  | _ => .unknownCommand

/-- What a parameter in front of the command is answered with. -/
def answerParameter (word : String) : Refusal :=
  match word.toList with
  | '-' :: '-' :: text =>
      let name := String.ofList (text.takeWhile (· != '='))
      if name = "help" || name = "version" then
        if text.contains '=' then .unexpectedValue
        else if name = "help" then .help
        else .version
      else .unknownParameter
  | _ :: 'h' :: _ => .help
  | _ :: 'V' :: _ => .version
  | _ => .unknownParameter

/-- Read the arguments of the process: a command, and what it takes. -/
def ofArguments : List String → Except Refusal Request
  | [] => .error .missingCommand
  | ["--"] => .error .missingCommand
  | "--" :: word :: _ =>
      if (Task.ofName? word).isSome || word = "help" then .error .unknownParameter
      else .error .unknownCommand
  | word :: rest =>
      match Task.ofName? word with
      | some task => (task.settings rest).map (fun settings => ⟨task, settings⟩)
      | none =>
          if word = "help" then .error (helpFor rest)
          else if word.startsWith "-" && word != "-" then .error (answerParameter word)
          else .error .unknownCommand

end Request

end PixelTurtle.Terminal
