/-
PixelTurtle.Draft.Line — reading one source line.

A line is an optional label with a colon, and then nothing, an action, or
a conditional:

    [L ':'] ( A | 'if' C A ['else' A] | 'while' C A ['else' A] )

where an action `A` is `['write' color] [move] [jump]` and not empty.
Every reader takes the unread words of the line (`Words`) and gives back
those it leaves. A missing jump means the next line, or for the action of
`while` the line itself.
-/
import PixelTurtle.Dialect
import PixelTurtle.Token
import PixelTurtle.Draft.Complaint

namespace PixelTurtle

/-- Labels and the lines they stand on, in order of declaration. -/
abbrev Labels := List (String × Nat)

/-- The unread words of a line and the position of the first of them. -/
structure Words where
  index : Nat
  rest : List Token

namespace Words

/-- All words of a line. -/
def ofTokens (tokens : List Token) : Words :=
  ⟨0, tokens⟩

/-- The next word, a colon being the word `:`. -/
def peek? (ws : Words) : Option String :=
  ws.rest.head?.map Token.text

/-- Whether the next word is `word`. -/
def startsWith (ws : Words) (word : String) : Bool :=
  ws.peek? == some word

/-- Whether every word was read. -/
def atEnd (ws : Words) : Bool :=
  ws.rest.isEmpty

/-- Read one word. -/
def skip (ws : Words) : Words :=
  ⟨ws.index + 1, ws.rest.tail⟩

end Words

/-- What a line reader has to know about its line: the words of the
dialect, the line's index and the number of lines. -/
structure LineContext where
  vocabulary : Vocabulary
  line : Nat
  lineCount : Nat

namespace LineContext

/-- Where a line without a jump goes on. -/
def nextLine (ctx : LineContext) : Goto :=
  if ctx.line + 1 < ctx.lineCount then .line (ctx.line + 1) else .exit 0

/-- A complaint about something missing. -/
def missing {α : Type} (complaint : Complaint) : Except LineFault α :=
  .error ⟨complaint, none⟩

/-- A complaint about the next word. -/
def objectTo {α : Type} (ws : Words) (complaint : Complaint) : Except LineFault α :=
  .error ⟨complaint, some ws.index⟩

/-! ## Operands -/

/-- The color after `write`. -/
def color (ctx : LineContext) (ws : Words) : Except LineFault (Color × Words) :=
  match ws.peek? with
  | none => missing .missingColor
  | some word =>
      match ctx.vocabulary.color? word with
      | some color => .ok (color, ws.skip)
      | none => objectTo ws (.invalidColor word)

/-- The color after `if` or `while`. -/
def condition (ctx : LineContext) (ws : Words) : Except LineFault (Color × Words) :=
  match ws.peek? with
  | none => missing (.missingCondition ctx.vocabulary.conditionNoun)
  | some word =>
      match ctx.vocabulary.condition? word with
      | some color => .ok (color, ws.skip)
      | none => objectTo ws (.invalidCondition word ctx.vocabulary.conditionNoun)

/-- The direction after the move word. -/
def direction (ctx : LineContext) (ws : Words) : Except LineFault (Direction × Words) :=
  match ws.peek? with
  | none => missing .missingDirection
  | some word =>
      match ctx.vocabulary.direction? word with
      | some direction => .ok (direction, ws.skip)
      | none => objectTo ws (.invalidDirection word)

/-- The label after `goto`. -/
def label (ctx : LineContext) (ws : Words) : Except LineFault (String × Words) :=
  match ws.peek? with
  | none => missing .missingLabel
  | some word =>
      if ctx.vocabulary.isReserved word then objectTo ws (.reservedLabel word)
      else .ok (word, ws.skip)

/-- The status after `exit`. Without a number it is 0 and no word is
read. -/
def status (ws : Words) : Except LineFault (Status × Words) :=
  match ws.peek? with
  | none => .ok (0, ws)
  | some word =>
      match Text.int32? word with
      | none => .ok (0, ws)
      | some number =>
          if 0 ≤ number then .ok (UInt32.ofNat number.toNat, ws.skip)
          else objectTo ws (.invalidStatus word)

/-! ## Actions -/

/-- `write` and a color, or nothing. -/
def write (ctx : LineContext) (ws : Words) : Except LineFault (Option Color × Words) :=
  if ws.startsWith "write" then do
    let (color, ws) ← ctx.color ws.skip
    return (some color, ws)
  else .ok (none, ws)

/-- A move, or nothing. -/
def move (ctx : LineContext) (ws : Words) : Except LineFault (Direction × Words) :=
  match ctx.vocabulary.moveWord with
  | some word => if ws.startsWith word then ctx.direction ws.skip else .ok (.nowhere, ws)
  | none =>
      match ws.peek?.bind ctx.vocabulary.direction? with
      | some direction => .ok (direction, ws.skip)
      | none => .ok (.nowhere, ws)

/-- A jump, or nothing, which is `otherwise`. -/
def jump (ctx : LineContext) (otherwise : Goto) (ws : Words) : Except LineFault (Goto × Words) :=
  if ws.startsWith "repeat" then .ok (.line ctx.line, ws.skip)
  else if ws.startsWith "goto" then do
    let (name, ws) ← ctx.label ws.skip
    return (.label name, ws)
  else if ws.startsWith "exit" then do
    let (status, ws) ← status ws.skip
    return (.exit status, ws)
  else .ok (otherwise, ws)

/-- An action, each of its three parts optional. -/
def action (ctx : LineContext) (otherwise : Goto) (ws : Words) : Except LineFault (Action Goto × Words) := do
  let (write, ws) ← ctx.write ws
  let (direction, ws) ← ctx.move ws
  let (target, ws) ← ctx.jump otherwise ws
  return (⟨write, direction, target⟩, ws)

/-- An action after `keyword`, which may not be empty. -/
def requiredAction (ctx : LineContext) (keyword : String) (otherwise : Goto) (ws : Words) :
    Except LineFault (Action Goto × Words) :=
  if ws.atEnd then missing (.missingAction keyword)
  else do
    let (action, left) ← ctx.action otherwise ws
    if left.index = ws.index then objectTo ws (.notAnAction (ws.peek?.getD "") keyword)
    else return (action, left)

/-! ## Instructions -/

/-- `else` and an action, or nothing, which goes on to the next line. -/
def alternative (ctx : LineContext) (ws : Words) : Except LineFault (Action Goto × Words) :=
  if ws.startsWith "else" then ctx.requiredAction "else" ctx.nextLine ws.skip
  else .ok (.goOn ctx.nextLine, ws)

/-- What follows `if` or `while`: a condition, an action, and perhaps an
alternative. -/
def conditional (ctx : LineContext) (keyword : String) (otherwise : Goto) (ws : Words) :
    Except LineFault (Instruction Goto × Words) := do
  let (condition, ws) ← ctx.condition ws
  let (consequent, ws) ← ctx.requiredAction keyword otherwise ws
  let (alternative, ws) ← ctx.alternative ws
  if condition.isWhite then return (⟨consequent, alternative, .conditional⟩, ws)
  else return (⟨alternative, consequent, .conditional⟩, ws)

/-- The same action for every pixel. A line without one is a
placeholder. -/
def unconditional (ctx : LineContext) (ws : Words) : Except LineFault (Instruction Goto × Words) := do
  let (action, left) ← ctx.action ctx.nextLine ws
  let kind := if left.index = ws.index then Kind.placeholder else Kind.unconditional
  return (⟨action, action, kind⟩, left)

/-- The instruction after the label. -/
def body (ctx : LineContext) (ws : Words) : Except LineFault (Instruction Goto × Words) :=
  if ws.startsWith "if" then ctx.conditional "if" ctx.nextLine ws.skip
  else if ctx.vocabulary.hasLoops && ws.startsWith "while" then
    ctx.conditional "while" (.line ctx.line) ws.skip
  else ctx.unconditional ws

/-- The instruction after the label, which has to be all that is left. -/
def wholeBody (ctx : LineContext) (ws : Words) : Except LineFault (Instruction Goto) := do
  let (instruction, left) ← ctx.body ws
  match left.peek? with
  | none => return instruction
  | some word =>
      if left.index = ws.index then objectTo left (.notAnInstruction word)
      else objectTo left (.notOnThisLine word)

/-- Declare a label on this line. -/
def declare (ctx : LineContext) (labels : Labels) (name : String) (ws : Words) :
    Except LineFault Labels :=
  if ctx.vocabulary.isReserved name then objectTo ws (.reservedLabel name)
  else
    match labels.lookup name with
    | some line => objectTo ws (.repeatedLabel name line)
    | none => .ok (labels ++ [(name, ctx.line)])

/-- Read a whole line. The labels declared so far are handed on with the
one this line declares. -/
def instruction (ctx : LineContext) (labels : Labels) (tokens : List Token) :
    Except LineFault (Instruction Goto × Labels) :=
  let ws := Words.ofTokens tokens
  match tokens with
  | [] =>
      if ctx.vocabulary.allowsPlaceholders then do
        let instruction ← ctx.wholeBody ws
        return (instruction, labels)
      else missing .emptyLine
  | .colon :: _ => missing .noLabelBeforeColon
  | .word name :: .colon :: rest => do
      let labels ← ctx.declare labels name ws
      if rest.isEmpty && !ctx.vocabulary.allowsPlaceholders then missing .nothingAfterLabel
      else
        let instruction ← ctx.wholeBody ⟨2, rest⟩
        return (instruction, labels)
  | _ => do
      let instruction ← ctx.wholeBody ws
      return (instruction, labels)

end LineContext

end PixelTurtle
