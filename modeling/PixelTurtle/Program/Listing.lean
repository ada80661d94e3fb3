/-
PixelTurtle.Program.Listing — a compiled program as text, one numbered
line for each source line.

       1 start: write black right goto 1
       2 if white up goto 1 else exit 0
       3 -
-/
import PixelTurtle.Program

namespace PixelTurtle

/-- A number set flush right in four columns. -/
def lineNumber (n : Nat) : String :=
  let digits := toString n
  String.ofList (List.replicate (4 - digits.length) ' ') ++ digits

/-- What a listing says of an instruction. Folding can split an
unconditional line in two, which is then shown as a conditional. -/
def Instruction.text (i : Instruction Target) : String :=
  let branching := "if white " ++ i.white.text ++ " else " ++ i.color.text
  match i.kind with
  | .placeholder => "-"
  | .unconditional => if i.white = i.color then i.white.text else branching
  | .conditional => branching

namespace Program

/-- The label that stands on a line. -/
def labelOn? (p : Program) (line : Nat) : Option String :=
  (p.labels.find? (fun entry => entry.2 == line)).map Prod.fst

/-- An instruction in its line of the listing. -/
def listingLine (p : Program) (line : Nat) (i : Instruction Target) : String :=
  lineNumber (line + 1) ++ " " ++
  (match p.labelOn? line with
    | some label => label ++ ": "
    | none => "") ++
  i.text

/-- One line of the listing. -/
def listingLine? (p : Program) (line : Nat) : Option String :=
  p.code[line]?.map (p.listingLine line)

/-- The whole listing, each line ended by a line feed. -/
def listing (p : Program) : String :=
  String.join (p.code.toList.mapIdx (fun line i => p.listingLine line i ++ "\n"))

end Program

end PixelTurtle
