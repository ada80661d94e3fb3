/-
PixelTurtle.Coverage — which actions of each line have run.

Coverage of one program is added up over several runs. It is reported as
a mark for each line and as a percentage, in which a line that does not
branch counts as fully covered once either of its actions ran.
-/
import PixelTurtle.Code

namespace PixelTurtle

/-- For each line, whether its white and its color action ran. -/
structure Coverage where
  white : Array Bool
  color : Array Bool
  deriving DecidableEq

/-- How much of a line ran. -/
inductive Mark where
  | never
  | half
  | entirely
  deriving DecidableEq

namespace Coverage

/-- Nothing ran yet. -/
def none (lines : Nat) : Coverage :=
  ⟨Array.replicate lines false, Array.replicate lines false⟩

/-- Forget what ran. -/
def clear (c : Coverage) : Coverage :=
  ⟨c.white.map (fun _ => false), c.color.map (fun _ => false)⟩

/-- Record that an action ran. Lines past the end are not recorded. -/
def cover : Coverage → Nat → Slot → Coverage
  | ⟨white, color⟩, line, .white => ⟨white.setIfInBounds line true, color⟩
  | ⟨white, color⟩, line, .color => ⟨white, color.setIfInBounds line true⟩

/-- Whether an action ran. -/
def isCovered (c : Coverage) (line : Nat) : Slot → Bool
  | .white => c.white.getD line false
  | .color => c.color.getD line false

/-- How much of a line of a given kind ran, in halves. -/
def halves (c : Coverage) (line : Nat) (kind : Kind) : Nat :=
  let white := c.isCovered line .white
  let color := c.isCovered line .color
  match kind with
  | .conditional => white.toNat + color.toNat
  | _ => if white || color then 2 else 0

/-- The mark of a line of a given kind. -/
def mark (c : Coverage) (line : Nat) (kind : Kind) : Mark :=
  match c.halves line kind with
  | 0 => .never
  | 1 => .half
  | _ => .entirely

/-- From a line on, how many lines hold an instruction, and how many
halves of them ran. -/
def tally (c : Coverage) (line : Nat) : List Kind → Nat × Nat
  | [] => (0, 0)
  | .placeholder :: rest => c.tally (line + 1) rest
  | kind :: rest =>
      let (lines, ran) := c.tally (line + 1) rest
      (lines + 1, ran + c.halves line kind)

/-- The whole percentage of what ran, 100 if there is nothing to run. -/
def percentage (c : Coverage) (kinds : List Kind) : Nat :=
  match c.tally 0 kinds with
  | (0, _) => 100
  | (lines, ran) => 100 * ran / (2 * lines)

/-- Two lists of what ran as one, as long as the first. -/
def mergeRuns (a b : Array Bool) : Array Bool :=
  a.mapIdx (fun line ran => ran || b.getD line false)

/-- Add the coverage of another run of the same program. -/
def merge (a b : Coverage) : Coverage :=
  ⟨mergeRuns a.white b.white, mergeRuns a.color b.color⟩

end Coverage

/-- The kind of each line. -/
def Code.kinds (code : Code) : List Kind :=
  code.toList.map Instruction.kind

end PixelTurtle
