/-
PixelTurtle.Instruction — what one line of a program does.

An instruction holds two actions, one for a white pixel under the cursor
and one for any other (`Slot`). An action may write a color, may move the
cursor one pixel, and then says where to go on. In a source that is a
`Goto`, which may name a label; in a linked program it is a `Target`.
-/
import PixelTurtle.Color

namespace PixelTurtle

/-- Where an action moves the cursor. -/
inductive Direction where
  | nowhere
  | up
  | down
  | left
  | right
  deriving DecidableEq, Inhabited

/-- The word for a direction in listings. -/
def Direction.name : Direction → String
  | nowhere => "nowhere"
  | up => "up"
  | down => "down"
  | left => "left"
  | right => "right"

/-- The status a program exits with. -/
abbrev Status := UInt32

/-- Where to go on, as the source says it. -/
inductive Goto where
  | line (line : Nat)
  | label (name : String)
  | exit (status : Status)
  deriving DecidableEq

/-- Where to go on, once labels are resolved. -/
inductive Target where
  | jump (line : Nat)
  | exit (status : Status)
  deriving DecidableEq

namespace Target

/-- Whether the program ends here. -/
def isExit : Target → Bool
  | jump _ => false
  | exit _ => true

/-- The line that runs next. -/
def line? : Target → Option Nat
  | jump line => some line
  | exit _ => none

/-- The target as a listing shows it, lines counted from one. -/
def text : Target → String
  | jump line => s!"goto {line + 1}"
  | exit status => s!"exit {status.toNat}"

end Target

/-- What happens on one class of pixel: an optional write, a move, and
where to go on. -/
structure Action (τ : Type) where
  write : Option Color
  direction : Direction
  target : τ
  deriving DecidableEq

namespace Action

/-- The action that only goes on. -/
def goOn {τ : Type} (target : τ) : Action τ :=
  ⟨none, .nowhere, target⟩

/-- Whether the cursor stays where it is. -/
def isStill {τ : Type} (a : Action τ) : Bool :=
  a.direction = .nowhere

/-- The line an action passes control to without moving the cursor. -/
def stillJump? (a : Action Target) : Option Nat :=
  match a.direction, a.target with
  | .nowhere, .jump line => some line
  | _, _ => none

/-- The action as a listing shows it. -/
def text (a : Action Target) : String :=
  (match a.write with
    | some color => "write " ++ color.name ++ " "
    | none => "") ++
  (if a.isStill then "" else a.direction.name ++ " ") ++
  a.target.text

end Action

/-- What kind of line an instruction came from. -/
inductive Kind where
  /-- Only a label, a comment or nothing at all. -/
  | placeholder
  | unconditional
  | conditional
  deriving DecidableEq

/-- Which of the two actions of an instruction is meant. -/
inductive Slot where
  | white
  | color
  deriving DecidableEq

namespace Slot

/-- The slot that a pixel selects. -/
def of (c : Color) : Slot :=
  if c.isWhite then white else color

/-- The pixel that stands for a slot where the real one is not known. -/
def standIn : Slot → Color
  | white => .white
  | color => .black

/-- Both slots, white first. -/
def both : List Slot :=
  [white, color]

/-- A slot is selected by its stand-in pixel. -/
@[simp] theorem of_standIn (s : Slot) : of s.standIn = s := by
  cases s <;> rfl

end Slot

/-- One line of a program. -/
structure Instruction (τ : Type) where
  white : Action τ
  color : Action τ
  kind : Kind
  deriving DecidableEq

namespace Instruction

/-- The action for a slot. -/
def action {τ : Type} (i : Instruction τ) : Slot → Action τ
  | .white => i.white
  | .color => i.color

/-- Replace the action for a slot. -/
def setAction {τ : Type} (i : Instruction τ) (s : Slot) (a : Action τ) : Instruction τ :=
  match s with
  | .white => { i with white := a }
  | .color => { i with color := a }

@[simp] theorem action_setAction_self {τ : Type} (i : Instruction τ) (s : Slot) (a : Action τ) :
    (i.setAction s a).action s = a := by
  cases s <;> rfl

@[simp] theorem kind_setAction {τ : Type} (i : Instruction τ) (s : Slot) (a : Action τ) :
    (i.setAction s a).kind = i.kind := by
  cases s <;> rfl

theorem action_setAction_of_ne {τ : Type} (i : Instruction τ) {s t : Slot} (a : Action τ)
    (h : s ≠ t) : (i.setAction s a).action t = i.action t := by
  cases s <;> cases t <;> first | rfl | exact absurd rfl h

end Instruction

/-- A pixel color that arrives at a line. Two walks that reach the same
branch go on in the same way. -/
structure Branch where
  color : Color
  line : Nat
  deriving DecidableEq

namespace Branch

/-- Branches are ordered by palette order, then by line. -/
def le (a b : Branch) : Bool :=
  a.color.rank < b.color.rank || (a.color.rank == b.color.rank && a.line ≤ b.line)

/-- The distinct branches of a list, in order. -/
def sorted (branches : List Branch) : List Branch :=
  (branches.mergeSort le).eraseReps

end Branch

end PixelTurtle
