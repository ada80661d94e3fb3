/-
PixelTurtle.Dialect — the two editions of the language.

The dialects share the parser, the passes and the machine. All that tells
them apart is a `Vocabulary`: the words they reserve, what those words
mean, and four switches.

* `binary`: two colors, compass directions after `move`, no blank lines,
  chains that never move are rejected.
* `palette`: eight colors, `up` `down` `left` `right`, `while` loops,
  blank and label-only lines allowed.
-/
import PixelTurtle.Instruction
import PixelTurtle.Text.Numeral

namespace PixelTurtle

/-- The editions of the language. -/
inductive Dialect where
  | binary
  | palette
  deriving DecidableEq, Inhabited

/-- What becomes of a chain of jumps that never moves. -/
inductive Strictness where
  /-- It is left in place and spins when run. -/
  | permissive
  /-- The program is rejected. -/
  | strict
  deriving DecidableEq

/-- The words of a dialect and what it allows. -/
structure Vocabulary where
  dialect : Dialect
  /-- Words that name no label, in code point order. -/
  reserved : List String
  /-- Colors after `write`. -/
  colors : List (String × Color)
  /-- Colors after `if` and `while`. -/
  conditions : List (String × Color)
  /-- Numbers that stand for a color in both places. -/
  numbers : List (Int × Color)
  directions : List (String × Direction)
  /-- What a message calls the word after `if`. -/
  conditionNoun : String
  /-- The word that has to precede a direction, if any. -/
  moveWord : Option String
  /-- Whether `while` begins a loop. -/
  hasLoops : Bool
  /-- Whether a line may hold no instruction. -/
  allowsPlaceholders : Bool
  /-- Whether an action that writes nothing writes its slot's stand-in. -/
  defaultsWrites : Bool
  strictness : Strictness

namespace Vocabulary

/-- The vocabulary of the binary dialect. -/
def binary : Vocabulary where
  dialect := .binary
  reserved :=
    [":", "E", "N", "S", "W", "black", "down", "east", "else", "exit", "goto", "if", "left",
      "move", "north", "repeat", "right", "south", "up", "west", "while", "white", "write"]
  colors := [("white", .white), ("black", .black)]
  conditions := [("white", .white), ("black", .black)]
  numbers := [(0, .white), (1, .black)]
  directions :=
    [("N", .up), ("north", .up), ("E", .right), ("east", .right), ("S", .down), ("south", .down),
      ("W", .left), ("west", .left)]
  conditionNoun := "color"
  moveWord := some "move"
  hasLoops := false
  allowsPlaceholders := false
  defaultsWrites := true
  strictness := .strict

/-- The vocabulary of the palette dialect. -/
def palette : Vocabulary where
  dialect := .palette
  reserved :=
    [":", "black", "blue", "color", "cyan", "down", "else", "exit", "goto", "green", "if", "left",
      "magenta", "nowhere", "red", "repeat", "right", "up", "while", "white", "write", "yellow"]
  colors :=
    [("black", .black), ("blue", .blue), ("cyan", .cyan), ("green", .green),
      ("magenta", .magenta), ("red", .red), ("white", .white), ("yellow", .yellow)]
  conditions := [("white", .white), ("color", .black)]
  numbers := [(0, .white), (1, .black)]
  directions := [("up", .up), ("down", .down), ("left", .left), ("right", .right)]
  conditionNoun := "condition"
  moveWord := none
  hasLoops := true
  allowsPlaceholders := true
  defaultsWrites := false
  strictness := .permissive

/-- Whether a word may not name a label. -/
def isReserved (v : Vocabulary) (word : String) : Bool :=
  v.reserved.contains word

/-- Look a word up among numbers if it spells one, else among names. -/
def find? (v : Vocabulary) (names : List (String × Color)) (word : String) : Option Color :=
  match Text.int32? word with
  | some number => v.numbers.lookup number
  | none => names.lookup word

/-- The color that a word names after `write`. -/
def color? (v : Vocabulary) (word : String) : Option Color :=
  v.find? v.colors word

/-- The color that a word names after `if` or `while`. -/
def condition? (v : Vocabulary) (word : String) : Option Color :=
  v.find? v.conditions word

/-- The direction that a word names. -/
def direction? (v : Vocabulary) (word : String) : Option Direction :=
  v.directions.lookup word

end Vocabulary

namespace Dialect

/-- The dialect of a source that names none. -/
def standard : Dialect := palette

/-- The words of a dialect. -/
def vocabulary : Dialect → Vocabulary
  | binary => .binary
  | palette => .palette

/-- The name of a dialect. -/
def name : Dialect → String
  | binary => "binary"
  | palette => "palette"

/-- The dialect with a given name. -/
def ofName? : String → Option Dialect
  | "binary" => some binary
  | "palette" => some palette
  | _ => none

/-- The colors a dialect can write, in palette order. -/
def inks : Dialect → List Color
  | binary => [.white, .black]
  | palette => Color.all

end Dialect

end PixelTurtle
