/-
PixelTurtle.Terminal.Arguments — reading command line arguments into a
record of settings.

A `Usage` lists the parameters of a command and says what to do with its
one operand. Words are read from the left. A value is looked at only once
the next parameter or operand, or the end, shows that it is complete, so
an unknown parameter or a second operand is reported before a bad value
right in front of it.
-/
namespace PixelTurtle.Terminal

/-- Why arguments are not carried out. -/
inductive Refusal where
  /-- Two parameters exclude each other, or one is repeated. -/
  | conflict
  /-- A value is missing, or is none of those allowed. -/
  | invalidValue
  /-- A value cannot be read. -/
  | unreadableValue
  /-- A switch is given a value. -/
  | unexpectedValue
  | missingParameter
  | unknownParameter
  | unknownCommand
  | missingCommand
  /-- The version was asked for. -/
  | version
  /-- Help was asked for. -/
  | help
  deriving DecidableEq

/-- What a parameter does to the settings. -/
inductive Effect (σ : Type) where
  /-- It is a switch. -/
  | switch (turn : σ → σ)
  /-- It takes a value. -/
  | value (accept : String → σ → Except Refusal σ)
  /-- It asks for something else than running the command. -/
  | ask (refusal : Refusal)

/-- A parameter of a command, named without its dashes. -/
structure Parameter (σ : Type) where
  name : String
  letter : Option Char
  repeatable : Bool
  effect : Effect σ

/-- The parameters of a command and its operand. -/
structure Usage (σ : Type) where
  parameters : List (Parameter σ)
  operand : String → σ → Except Refusal σ

/-- What was read but not yet carried out. -/
inductive Pending (σ : Type) where
  | nothing
  /-- A parameter whose value is still to come. -/
  | parameter (p : Parameter σ)
  | value (p : Parameter σ) (value : String)
  | operand (value : String)

/-- Arguments read so far. -/
structure ArgumentState (σ : Type) where
  settings : σ
  /-- The names of the parameters that were given. -/
  given : List String
  hasOperand : Bool
  pending : Pending σ

namespace ArgumentState

variable {σ : Type}

/-- Note that a parameter is given, which may happen once unless it is
repeatable. -/
def note (s : ArgumentState σ) (p : Parameter σ) : Except Refusal (ArgumentState σ) :=
  if s.given.contains p.name && !p.repeatable then .error .conflict
  else .ok { s with given := p.name :: s.given }

/-- Carry out a parameter with its value. -/
def accept (s : ArgumentState σ) (p : Parameter σ) (value : String) :
    Except Refusal (ArgumentState σ) := do
  let s ← s.note p
  match p.effect with
  | .switch turn => return { s with settings := turn s.settings }
  | .ask refusal => .error refusal
  | .value accept =>
      let settings ← accept value s.settings
      return { s with settings := settings }

/-- Carry out what is pending. A parameter without its value is
refused. -/
def settle (u : Usage σ) (s : ArgumentState σ) : Except Refusal (ArgumentState σ) :=
  let cleared := { s with pending := .nothing }
  match s.pending with
  | .nothing => .ok s
  | .parameter _ => .error .invalidValue
  | .value p value => cleared.accept p value
  | .operand value => do
      let settings ← u.operand value s.settings
      return { cleared with settings := settings }

/-- Read an operand. There is at most one. -/
def operand (u : Usage σ) (s : ArgumentState σ) (word : String) :
    Except Refusal (ArgumentState σ) :=
  if s.hasOperand then .error .unknownParameter
  else do
    let s ← s.settle u
    return { s with hasOperand := true, pending := .operand word }

/-- Read a parameter, perhaps with a value attached to it. -/
def parameter (u : Usage σ) (s : ArgumentState σ) (p : Parameter σ) (attached : Option String) :
    Except Refusal (ArgumentState σ) :=
  match p.effect, attached with
  | .value _, some value => do
      let s ← s.settle u
      s.accept p value
  | .value _, none => do
      let s ← s.settle u
      return { s with pending := .parameter p }
  | _, some _ => .error .unexpectedValue
  | _, none => do
      let s ← s.settle u
      s.accept p ""

/-- Read letters behind a single dash. A parameter that takes a value
takes the letters that follow it, less an equals sign. -/
def letters (u : Usage σ) (s : ArgumentState σ) : List Char → Except Refusal (ArgumentState σ)
  | [] => .ok s
  | letter :: rest =>
      match u.parameters.find? (fun p => p.letter == some letter) with
      | none => .error .unknownParameter
      | some p =>
          match p.effect, rest with
          | .value _, [] => s.parameter u p none
          | .value _, '=' :: value => s.parameter u p (some (String.ofList value))
          | .value _, value => s.parameter u p (some (String.ofList value))
          | _, _ => do
              let s ← s.parameter u p none
              s.letters u rest

/-- Read a name behind two dashes, with a value behind an equals sign. -/
def named (u : Usage σ) (s : ArgumentState σ) (text : List Char) :
    Except Refusal (ArgumentState σ) :=
  let name := String.ofList (text.takeWhile (· != '='))
  let attached :=
    match text.dropWhile (· != '=') with
    | [] => none
    | _ :: value => some (String.ofList value)
  match u.parameters.find? (fun p => p.name == name) with
  | none => .error .unknownParameter
  | some p => s.parameter u p attached

/-- Read one word that is no operand by decree. -/
def word (u : Usage σ) (s : ArgumentState σ) (word : String) :
    Except Refusal (ArgumentState σ) :=
  match word.toList with
  | '-' :: '-' :: text => s.named u text
  | '-' :: letter :: rest => s.letters u (letter :: rest)
  | _ =>
      match s.pending with
      | .parameter p => .ok { s with pending := .value p word }
      | _ => s.operand u word

/-- Read operands only. -/
def operands (u : Usage σ) (s : ArgumentState σ) :
    List String → Except Refusal (ArgumentState σ)
  | [] => s.settle u
  | word :: rest => do
      let s ← s.operand u word
      s.operands u rest

/-- Read words. After two dashes alone there are only operands. -/
def words (u : Usage σ) (s : ArgumentState σ) :
    List String → Except Refusal (ArgumentState σ)
  | [] => s.settle u
  | word :: rest =>
      if word = "--" then s.operands u rest
      else do
        let s ← s.word u word
        s.words u rest

end ArgumentState

/-- Read the arguments of a command into settings that start as
`settings`. -/
def Usage.read {σ : Type} (u : Usage σ) (settings : σ) (words : List String) :
    Except Refusal (ArgumentState σ) :=
  ArgumentState.words u ⟨settings, [], false, .nothing⟩ words

end PixelTurtle.Terminal
