/-
PixelTurtle.Proofs.Grammar — the grammar of a source line.

    [L ':'] ( A | 'if' C A ['else' A] | 'while' C A ['else' A] )

where an action `A` is `['write' color] [move] [jump]` and not empty. Each
rule is a relation between a list of tokens and what the tokens mean. No
rule mentions words that are left over, positions, or the order in which
anything is tried.

* `Grammar.Line` — the tokens of a line, its instruction, and the labels
  after it.
* `Vocabulary.Begins` — the parts `write`, move, jump and `else` have an
  order, and no word begins two of them, so what follows a part that is
  absent never looks like it.
* `Dialect.unambiguous` — what the two dialects have to give for that.
-/
import PixelTurtle.Draft.Line

namespace PixelTurtle

/-! ## The grammar -/

namespace Grammar

/-- `['write' color]` -/
inductive Write (v : Vocabulary) : List Token → Option Color → Prop where
  | absent : Write v [] none
  | write {word : String} {color : Color} (hcolor : v.color? word = some color) :
      Write v [.word "write", .word word] (some color)

/-- `[move]`: a direction, which the move word precedes if the dialect has
one. -/
inductive Move (v : Vocabulary) : List Token → Direction → Prop where
  | absent : Move v [] .nowhere
  | bare {word : String} {direction : Direction} (hmove : v.moveWord = none)
      (hdirection : v.direction? word = some direction) : Move v [.word word] direction
  | marked {marker word : String} {direction : Direction} (hmove : v.moveWord = some marker)
      (hdirection : v.direction? word = some direction) :
      Move v [.word marker, .word word] direction

/-- `[jump]`: `repeat`, `goto L`, `exit` or `exit N`. Without one the
action goes on to `otherwise`. -/
inductive Jump (ctx : LineContext) (otherwise : Goto) : List Token → Goto → Prop where
  | absent : Jump ctx otherwise [] otherwise
  | again : Jump ctx otherwise [.word "repeat"] (.line ctx.line)
  | label {name : String} (hname : ctx.vocabulary.isReserved name = false) :
      Jump ctx otherwise [.word "goto", .word name] (.label name)
  | exit : Jump ctx otherwise [.word "exit"] (.exit 0)
  | status {word : String} {number : Int} (hnumber : Text.int32? word = some number)
      (hle : 0 ≤ number) :
      Jump ctx otherwise [.word "exit", .word word] (.exit (UInt32.ofNat number.toNat))

/-- `['write' color] [move] [jump]`, perhaps without any of the three. -/
inductive Parts (ctx : LineContext) (otherwise : Goto) : List Token → Action Goto → Prop where
  | parts {writeTokens moveTokens jumpTokens : List Token} {write : Option Color}
      {direction : Direction} {target : Goto} (hwrite : Write ctx.vocabulary writeTokens write)
      (hmove : Move ctx.vocabulary moveTokens direction)
      (hjump : Jump ctx otherwise jumpTokens target) :
      Parts ctx otherwise (writeTokens ++ (moveTokens ++ jumpTokens)) ⟨write, direction, target⟩

/-- `A`: an action that is not empty. -/
structure Act (ctx : LineContext) (otherwise : Goto) (tokens : List Token) (a : Action Goto) :
    Prop where
  parts : Parts ctx otherwise tokens a
  ne_nil : tokens ≠ []

/-- `['else' A]`. Without it the instruction goes on to the next line. -/
inductive Alternative (ctx : LineContext) : List Token → Action Goto → Prop where
  | absent : Alternative ctx [] (.goOn ctx.nextLine)
  | present {tokens : List Token} {a : Action Goto} (haction : Act ctx ctx.nextLine tokens a) :
      Alternative ctx (.word "else" :: tokens) a

/-- The keywords of conditionals, and where their action goes on without
a jump. -/
inductive Opening (ctx : LineContext) : String → Goto → Prop where
  | branch : Opening ctx "if" ctx.nextLine
  | loop (hloops : ctx.vocabulary.hasLoops = true) : Opening ctx "while" (.line ctx.line)

/-- The conditional that does one thing on the pixels its condition is
about and another on all others. -/
def branching (condition : Color) (consequent alternative : Action Goto) : Instruction Goto :=
  Instruction.setAction ⟨alternative, alternative, .conditional⟩ (.of condition) consequent

/-- A line that only goes on to the next. -/
def placeholder (ctx : LineContext) : Instruction Goto :=
  ⟨.goOn ctx.nextLine, .goOn ctx.nextLine, .placeholder⟩

/-- What follows the label: nothing where the dialect allows that, `A`, or
a keyword and `C A ['else' A]`. -/
inductive Body (ctx : LineContext) : List Token → Instruction Goto → Prop where
  | empty (hallows : ctx.vocabulary.allowsPlaceholders = true) : Body ctx [] (placeholder ctx)
  | action {tokens : List Token} {a : Action Goto} (haction : Act ctx ctx.nextLine tokens a) :
      Body ctx tokens ⟨a, a, .unconditional⟩
  | conditional {keyword word : String} {otherwise : Goto} {condition : Color}
      {tokens tokens' : List Token} {consequent alternative : Action Goto}
      (hopening : Opening ctx keyword otherwise)
      (hcondition : ctx.vocabulary.condition? word = some condition)
      (hconsequent : Act ctx otherwise tokens consequent)
      (halternative : Alternative ctx tokens' alternative) :
      Body ctx (.word keyword :: .word word :: (tokens ++ tokens'))
        (branching condition consequent alternative)

/-- `[L ':'] body`. A label that is not reserved and not among `labels` is
added to them. -/
inductive Line (ctx : LineContext) (labels : Labels) :
    List Token → Instruction Goto → Labels → Prop where
  | plain {tokens : List Token} {i : Instruction Goto} (hbody : Body ctx tokens i) :
      Line ctx labels tokens i labels
  | labelled {name : String} {tokens : List Token} {i : Instruction Goto}
      (hname : ctx.vocabulary.isReserved name = false) (hnew : name ∉ labels.map Prod.fst)
      (hbody : Body ctx tokens i) :
      Line ctx labels (.word name :: .colon :: tokens) i (labels ++ [(name, ctx.line)])

variable {ctx : LineContext} {tokens : List Token}

/-- Without its parts an action only goes on. -/
theorem Parts.eq_goOn {otherwise : Goto} {a : Action Goto} (h : Parts ctx otherwise [] a) :
    a = .goOn otherwise := by
  generalize htokens : ([] : List Token) = tokens at h
  obtain ⟨hwrite, hmove, hjump⟩ := h
  obtain ⟨rfl, rfl, rfl⟩ : _ = [] ∧ _ = [] ∧ _ = [] := by simpa using htokens.symm
  cases hwrite
  cases hmove
  cases hjump
  rfl

/-- The conditional with the consequent in the slot of its condition. -/
theorem branching_eq (condition : Color) (consequent alternative : Action Goto) :
    branching condition consequent alternative =
      if condition.isWhite then ⟨consequent, alternative, .conditional⟩
      else ⟨alternative, consequent, .conditional⟩ := by
  unfold branching Slot.of
  split <;> rfl

theorem Opening.ne_colon {keyword : String} {otherwise : Goto}
    (h : Opening ctx keyword otherwise) : keyword ≠ ":" := by
  cases h <;> decide

theorem Parts.colon_not_mem {otherwise : Goto} {a : Action Goto}
    (h : Parts ctx otherwise tokens a) : Token.colon ∉ tokens := by
  obtain ⟨hwrite, hmove, hjump⟩ := h
  simp only [List.mem_append, not_or]
  refine ⟨?_, ?_, ?_⟩
  · cases hwrite <;> simp
  · cases hmove <;> simp
  · cases hjump <;> simp

/-- The only colon of a line is the one after its label. -/
theorem Body.colon_not_mem {i : Instruction Goto} (h : Body ctx tokens i) :
    Token.colon ∉ tokens := by
  cases h with
  | empty _ => simp
  | action haction => exact haction.parts.colon_not_mem
  | conditional _ _ hconsequent halternative =>
    have hconsequent := hconsequent.parts.colon_not_mem
    cases halternative with
    | absent => simpa using hconsequent
    | present haction => simpa using ⟨hconsequent, haction.parts.colon_not_mem⟩

theorem Body.allowsPlaceholders {i : Instruction Goto} (h : Body ctx [] i) :
    ctx.vocabulary.allowsPlaceholders = true := by
  generalize htokens : ([] : List Token) = tokens at h
  cases h with
  | empty hallows => exact hallows
  | action haction => exact absurd htokens.symm haction.ne_nil
  | conditional => simp at htokens

variable {labels labels' : Labels} {i : Instruction Goto}

theorem line_label_iff {name : String} :
    Line ctx labels (.word name :: .colon :: tokens) i labels' ↔
      (ctx.vocabulary.isReserved name = false ∧ name ∉ labels.map Prod.fst ∧
        labels' = labels ++ [(name, ctx.line)]) ∧ Body ctx tokens i := by
  constructor
  · rintro (hbody | ⟨hname, hnew, hbody⟩)
    · simpa using hbody.colon_not_mem
    · exact ⟨⟨hname, hnew, rfl⟩, hbody⟩
  · rintro ⟨⟨hname, hnew, rfl⟩, hbody⟩
    exact .labelled hname hnew hbody

theorem line_iff (h : ∀ name rest, tokens ≠ .word name :: .colon :: rest) :
    Line ctx labels tokens i labels' ↔ Body ctx tokens i ∧ labels' = labels := by
  constructor
  · rintro (hbody | ⟨-, -, -⟩)
    · exact ⟨hbody, rfl⟩
    · exact absurd rfl (h _ _)
  · rintro ⟨hbody, rfl⟩
    exact .plain hbody

end Grammar

/-! ## Words that begin a part -/

namespace Vocabulary

/-- The words that a move may begin with. -/
def BeginsMove (v : Vocabulary) (word : String) : Prop :=
  v.moveWord = some word ∨ v.direction? word ≠ none

instance (v : Vocabulary) : DecidablePred v.BeginsMove :=
  fun word => inferInstanceAs (Decidable (v.moveWord = some word ∨ v.direction? word ≠ none))

/-- The words that begin a part of an action or an alternative, with the
place of that part: `write` 0, a move 1, a jump 2, `else` 3. -/
inductive Begins (v : Vocabulary) : Nat → String → Prop where
  | write : Begins v 0 "write"
  | move {word : String} (hmove : v.BeginsMove word) : Begins v 1 word
  | again : Begins v 2 "repeat"
  | label : Begins v 2 "goto"
  | exit : Begins v 2 "exit"
  | alternative : Begins v 3 "else"

/-- The words in which the grammar is written, the colon among them. -/
def keywords : List String :=
  [":", "write", "repeat", "goto", "exit", "else", "if", "while"]

/-- No keyword begins a move, and the colon is no operand. -/
structure Unambiguous (v : Vocabulary) : Prop where
  move : ∀ word ∈ keywords, ¬ v.BeginsMove word
  color : v.color? ":" = none
  condition : v.condition? ":" = none
  label : v.isReserved ":" = true

/-! No word has two places. -/

namespace Begins

variable {v : Vocabulary} {n : Nat} {word : String}

theorem ne_write (hv : v.Unambiguous) (h : v.Begins n word) (hn : 1 ≤ n) : word ≠ "write" := by
  cases h with
  | write => omega
  | move hmove =>
    rintro rfl
    exact hv.move "write" (by decide) hmove
  | again | label | exit | alternative => decide

theorem not_beginsMove (hv : v.Unambiguous) (h : v.Begins n word) (hn : 2 ≤ n) :
    ¬ v.BeginsMove word := by
  cases h with
  | write | move => omega
  | again | label | exit | alternative => exact hv.move _ (by decide)

theorem eq_else (h : v.Begins n word) (hn : 3 ≤ n) : word = "else" := by
  cases h with
  | write | move | again | label | exit => omega
  | alternative => rfl

theorem ne_conditional (hv : v.Unambiguous) (h : v.Begins n word) :
    word ≠ "if" ∧ word ≠ "while" := by
  cases h with
  | move hmove =>
    constructor <;> rintro rfl
    · exact hv.move "if" (by decide) hmove
    · exact hv.move "while" (by decide) hmove
  | write | again | label | exit | alternative => decide

end Begins

namespace Unambiguous

variable {v : Vocabulary}

theorem direction_colon (hv : v.Unambiguous) : v.direction? ":" = none :=
  Decidable.of_not_not fun h => hv.move ":" (by decide) (.inr h)

theorem ne_colon_of_marker (hv : v.Unambiguous) {word : String} (h : v.moveWord = some word) :
    word ≠ ":" := by
  rintro rfl
  exact hv.move ":" (by decide) (.inl h)

theorem ne_colon_of_free (hv : v.Unambiguous) {word : String} (h : v.isReserved word = false) :
    word ≠ ":" := by
  rintro rfl
  simp [hv.label] at h

end Unambiguous

end Vocabulary

theorem Dialect.unambiguous (d : Dialect) : d.vocabulary.Unambiguous := by
  cases d <;> exact ⟨by decide, by decide, by decide, by decide⟩

end PixelTurtle
