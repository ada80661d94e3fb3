/-
PixelTurtle.Code — linked instructions.

`Draft.link` resolves the labels of a draft. The first line that uses an
unknown label is the fault, its white action being looked at before its
color action. In a dialect that defaults its writes, an action that
writes nothing is given the stand-in color of its slot.
-/
import PixelTurtle.Draft

namespace PixelTurtle

/-- Instructions whose jumps are lines, one for each source line. -/
abbrev Code := Array (Instruction Target)

namespace Code

/-- The action of a line for a slot. Past the last line a program ends
with status 0. -/
def action (code : Code) (line : Nat) (slot : Slot) : Action Target :=
  match code[line]? with
  | some instruction => instruction.action slot
  | none => .goOn (.exit 0)

/-- Replace the action of a line for a slot. -/
def setAction (code : Code) (line : Nat) (slot : Slot) (action : Action Target) : Code :=
  code.modify line (fun instruction => instruction.setAction slot action)

/-- Whether a line exists and holds no instruction. -/
def isPlaceholder (code : Code) (line : Nat) : Bool :=
  match code[line]? with
  | some instruction => instruction.kind = .placeholder
  | none => false

@[simp] theorem size_setAction (code : Code) (line : Nat) (slot : Slot) (a : Action Target) :
    (code.setAction line slot a).size = code.size := by
  simp [setAction]

end Code

namespace Goto

/-- The fault of an unknown label used on a line. -/
def undefined (name : String) (line : Nat) : Fault where
  code := .undefinedLabel
  line := some line
  word := none
  detail := "label '" ++ name ++ "' is not defined"

/-- Resolve a jump that stands on a line. -/
def link (labels : Labels) (line : Nat) : Goto → Except Fault Target
  | .line next => .ok (.jump next)
  | .exit status => .ok (.exit status)
  | .label name =>
      match labels.lookup name with
      | some next => .ok (.jump next)
      | none => .error (undefined name line)

end Goto

/-- How a draft is linked. -/
structure Linker where
  labels : Labels
  defaultsWrites : Bool

namespace Linker

/-- Resolve the jump of an action and settle its write. -/
def action (l : Linker) (line : Nat) (slot : Slot) (a : Action Goto) :
    Except Fault (Action Target) := do
  let target ← a.target.link l.labels line
  let write := if a.write.isNone && l.defaultsWrites then some slot.standIn else a.write
  return ⟨write, a.direction, target⟩

/-- Resolve both actions of a line, white first. -/
def instruction (l : Linker) (line : Nat) (i : Instruction Goto) :
    Except Fault (Instruction Target) := do
  let white ← l.action line .white i.white
  let color ← l.action line .color i.color
  return ⟨white, color, i.kind⟩

/-- Resolve the lines from `line` on. -/
def instructions (l : Linker) (line : Nat) :
    List (Instruction Goto) → Except Fault (List (Instruction Target))
  | [] => .ok []
  | i :: rest => do
      let linked ← l.instruction line i
      let others ← l.instructions (line + 1) rest
      return linked :: others

/-- Resolve all lines. -/
def link (l : Linker) (instructions : List (Instruction Goto)) : Except Fault Code :=
  (l.instructions 0 instructions).map List.toArray

end Linker

/-- Resolve the labels of a draft. -/
def Draft.link (d : Draft) : Except Fault Code :=
  Linker.link ⟨d.labels, d.dialect.vocabulary.defaultsWrites⟩ d.instructions

end PixelTurtle
