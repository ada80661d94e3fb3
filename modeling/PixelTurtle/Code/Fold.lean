/-
PixelTurtle.Code.Fold — chains of jumps that do not move are replaced by
the action they end on.

A chain starts at an action that stands still and jumps. It carries the
color last written, or the stand-in of its slot, to the action that this
color selects on the line jumped to, and so on until an action moves or
exits. That action, with the last write along the chain, replaces the
first. A chain that comes back to a branch it is still following never
ends: it is left alone, or rejected when the strictness says so.

Every line resolved on the way keeps its resolution, and every branch
found to loop is remembered, so no chain is followed twice. The recursion
is given a depth. Each nested step follows a branch that is not yet on the
path, so `Code.fold` never reaches the end of the depth it allows.
-/
import PixelTurtle.Code.Collapse

namespace PixelTurtle

/-- The pass in progress: the lines as they are now, and the branches
known to loop. -/
structure Folding where
  code : Code
  looping : List Branch

namespace Folding

/-- The fault of a chain that comes back to a line without moving. -/
def loopFault (line : Nat) : Fault where
  code := .infiniteLoop
  line := some line
  word := none
  detail := "found infinite loop without moving"

/-- Remember that a branch loops. -/
def markLooping (s : Folding) (branch : Branch) : Folding :=
  { s with looping := branch :: s.looping }

/-- Follow the chain that `action` starts when `color` is under the
cursor. `path` holds the branches being followed. The result is the
action that the chain ends on, or nothing if it never ends. -/
def resolve (strictness : Strictness) :
    Nat → Folding → List Branch → Action Target → Color →
      Except Fault (Option (Action Target) × Folding)
  | 0, s, _, _, _ => .ok (none, s)
  | depth + 1, s, path, action, color =>
      match action.stillJump? with
      | none => .ok (some action, s)
      | some next =>
          let color := action.write.getD color
          let branch : Branch := ⟨color, next⟩
          if s.looping.contains branch then .ok (none, s)
          else if path.contains branch then
            match strictness with
            | .strict => .error (loopFault next)
            | .permissive => .ok (none, s.markLooping branch)
          else
            let slot := Slot.of color
            match resolve strictness depth s (branch :: path) (s.code.action next slot) color with
            | .error fault => .error fault
            | .ok (none, s) => .ok (none, s.markLooping branch)
            | .ok (some last, s) =>
                .ok (some { last with write := last.write.or action.write },
                  { s with code := s.code.setAction next slot last })

/-- Fold one action of a line. -/
def foldSlot (strictness : Strictness) (depth : Nat) (s : Folding) (line : Nat) (slot : Slot) :
    Except Fault Folding :=
  match resolve strictness depth s [⟨slot.standIn, line⟩] (s.code.action line slot)
      slot.standIn with
  | .error fault => .error fault
  | .ok (none, s) => .ok s
  | .ok (some last, s) => .ok { s with code := s.code.setAction line slot last }

/-- Fold both actions of a line, unless it is a placeholder. -/
def foldLine (strictness : Strictness) (depth : Nat) (s : Folding) (line : Nat) :
    Except Fault Folding :=
  if s.code.isPlaceholder line then .ok s
  else
    match foldSlot strictness depth s line .white with
    | .error fault => .error fault
    | .ok s => foldSlot strictness depth s line .color

/-- Fold the given lines in order. -/
def foldLines (strictness : Strictness) (depth : Nat) (s : Folding) :
    List Nat → Except Fault Folding
  | [] => .ok s
  | line :: rest =>
      match foldLine strictness depth s line with
      | .error fault => .error fault
      | .ok s => foldLines strictness depth s rest

end Folding

/-- Replace every chain that stands still by the action it ends on. -/
def Code.fold (strictness : Strictness) (code : Code) : Except Fault Code :=
  (Folding.foldLines strictness (code.branchCount + 2) ⟨code, []⟩ (List.range code.size)).map
    Folding.code

end PixelTurtle
