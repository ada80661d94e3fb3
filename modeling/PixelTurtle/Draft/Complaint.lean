/-
PixelTurtle.Draft.Complaint — what can be wrong with one source line.

A complaint is a cause; `Complaint.message` gives its wording. Complaints
about a word that was found carry that word, and `LineFault` says where
in the line it stands.
-/
import PixelTurtle.Fault

namespace PixelTurtle

/-- Why a line is no instruction. -/
inductive Complaint where
  /-- The line is empty and must not be. -/
  | emptyLine
  /-- The line begins with a colon. -/
  | noLabelBeforeColon
  /-- A label is declared or used that has another meaning. -/
  | reservedLabel (name : String)
  /-- A label is declared again; `line` is the first declaration. -/
  | repeatedLabel (name : String) (line : Nat)
  /-- Nothing follows a label, and something must. -/
  | nothingAfterLabel
  | missingCondition (noun : String)
  | invalidCondition (word noun : String)
  /-- Nothing follows `if`, `while` or `else`. -/
  | missingAction (keyword : String)
  /-- What follows `if`, `while` or `else` begins no action. -/
  | notAnAction (word keyword : String)
  | missingColor
  | invalidColor (word : String)
  | missingDirection
  | invalidDirection (word : String)
  | missingLabel
  | invalidStatus (word : String)
  /-- The first word begins no instruction. -/
  | notAnInstruction (word : String)
  /-- The instruction is complete and words are left. -/
  | notOnThisLine (word : String)
  deriving DecidableEq

/-- A word as messages quote it. -/
def quoted (word : String) : String :=
  "'" ++ word ++ "'"

/-- The wording of a complaint. -/
def Complaint.message : Complaint → String
  | emptyLine => "found empty line, use shift enter if an empty line was intended"
  | noLabelBeforeColon => "label is missing before colon"
  | reservedLabel name => quoted name ++ " is reserved from use as a label"
  | repeatedLabel name line =>
      "label " ++ quoted name ++ s!" is already defined on line {line + 1}"
  | nothingAfterLabel =>
      "instruction is missing after label, use shift enter if a line break was intended"
  | missingCondition noun => noun ++ " is missing"
  | invalidCondition word noun => quoted word ++ " is not a valid " ++ noun
  | missingAction keyword => quoted keyword ++ " action is missing"
  | notAnAction word keyword =>
      "found " ++ quoted word ++ " before " ++ quoted keyword ++ " action"
  | missingColor => "color is missing"
  | invalidColor word => quoted word ++ " is not a valid color"
  | missingDirection => "direction is missing"
  | invalidDirection word => quoted word ++ " is not a valid direction"
  | missingLabel => "label is missing"
  | invalidStatus word => quoted word ++ " is not a valid exit status"
  | notAnInstruction word => quoted word ++ " is not a valid instruction"
  | notOnThisLine word => quoted word ++ " should be on the next line"

/-- A complaint about one line, with the position of the word it is
about. -/
structure LineFault where
  complaint : Complaint
  word : Option Nat
  deriving DecidableEq

/-- The fault that a complaint about line `line` is. -/
def LineFault.toFault (f : LineFault) (line : Nat) : Fault where
  code := .badSyntax
  line := some line
  word := f.word
  detail := f.complaint.message

end PixelTurtle
