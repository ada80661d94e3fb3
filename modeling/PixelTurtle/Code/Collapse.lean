/-
PixelTurtle.Code.Collapse — jumps into placeholder lines are redirected
to where those lines lead.

The pass goes over the lines in order. A jump onto a placeholder first
has that placeholder's own jumps redirected, unless that was begun before
for the same arriving color, and then takes over the target of its white
action. Writes and moves are untouched.

The recursion is given a depth. Each nested redirection is for a branch
that was not visited before, and there are eight branches to a line, so
`Code.collapse` never reaches the end of the depth it allows.
-/
import PixelTurtle.Code

namespace PixelTurtle

/-- The pass in progress: the lines as they are now, and the branches
whose redirection was begun. -/
structure Collapsing where
  code : Code
  visited : List Branch

namespace Collapsing

/-- The placeholder that an action jumps onto, with the color that arrives
there: the one written, or else the slot's stand-in. -/
def placeholder? (s : Collapsing) (line : Nat) (slot : Slot) : Option Branch :=
  let action := s.code.action line slot
  match action.target with
  | .exit _ => none
  | .jump next =>
      if s.code.isPlaceholder next then some ⟨action.write.getD slot.standIn, next⟩ else none

/-- Let an action go on where the white action of line `next` goes on. -/
def follow (s : Collapsing) (line : Nat) (slot : Slot) (next : Nat) : Collapsing :=
  let action := s.code.action line slot
  let followed := { action with target := (s.code.action next .white).target }
  { s with code := s.code.setAction line slot followed }

/-- Redirect one action. -/
def redirect : Nat → Collapsing → Nat → Slot → Collapsing
  | 0, s, _, _ => s
  | depth + 1, s, line, slot =>
      match s.placeholder? line slot with
      | none => s
      | some branch =>
          if s.visited.contains branch then s.follow line slot branch.line
          else
            let s : Collapsing := { s with visited := branch :: s.visited }
            let s := redirect depth s branch.line .white
            let s := redirect depth s branch.line .color
            s.follow line slot branch.line

/-- Redirect both actions of a line. -/
def redirectLine (depth : Nat) (s : Collapsing) (line : Nat) : Collapsing :=
  redirect depth (redirect depth s line .white) line .color

end Collapsing

/-- How many branches there are: one for each color on each line. -/
def Code.branchCount (code : Code) : Nat :=
  Color.all.length * code.size

/-- Redirect every jump onto a placeholder line. -/
def Code.collapse (code : Code) : Code :=
  ((List.range code.size).foldl (Collapsing.redirectLine (code.branchCount + 1))
    ⟨code, []⟩).code

end PixelTurtle
