/-
PixelTurtle.Proofs.Places — where on its line a reader stops.

The readers of a line hand on the words they leave, but a fault ends them and
then no words are handed on. A `LineReader` is such a reader with the unread
words in a state, so that they are still there after a fault.

* `LineReader.outcome_instruction` — without its words it is the reader of a
  line.
* `LineReader.instruction_tracks` — it moves only forward, and it raises every
  fault in its place (`LineFault.IsAt`): the next word is the one that the fault
  is about and points at, and a fault that is about no word is raised where no
  word is left.
* `LineReader.exists_left_of_error` — so every line that is rejected is rejected
  in its place, but for a line that begins with a colon, which is not read at
  all.

`LineReader.Tracks` compares the two readers of one part of a line. There is one
lemma for each part, and `Tracks.bind` puts them together.
-/
import PixelTurtle.Proofs.Derivations

namespace PixelTurtle

/-! ## Complaints and places -/

/-- The word of the line that a complaint is about. -/
def Complaint.found? : Complaint → Option String
  | reservedLabel name | repeatedLabel name _ => some name
  | invalidCondition word _ | notAnAction word _ | invalidColor word | invalidDirection word
  | invalidStatus word | notAnInstruction word | notOnThisLine word => some word
  | emptyLine | noLabelBeforeColon | nothingAfterLabel | missingCondition _ | missingAction _
  | missingColor | missingDirection | missingLabel => none

/-- A fault is about the next word of a line and points at it, or no word is
left and it points at none. If it is about a label that is declared again, then
`labels` say where that was declared. -/
structure LineFault.IsAt (labels : Labels) (f : LineFault) (ws : Words) : Prop where
  found : f.complaint.found? = ws.peek?
  word : f.word = ws.peek?.map fun _ => ws.index
  declared : ∀ name line, f.complaint = .repeatedLabel name line → labels.lookup name = some line

namespace Words

/-- Reading leads from `ws` to `left`. -/
def Leads (ws left : Words) : Prop :=
  ∃ tokens, ws.Takes tokens left

variable {ws mid left : Words}

theorem Leads.refl (ws : Words) : ws.Leads ws :=
  ⟨[], takes_nil.mpr rfl⟩

theorem Leads.trans (h : ws.Leads mid) (h' : mid.Leads left) : ws.Leads left := by
  obtain ⟨tokens, htokens⟩ := h
  obtain ⟨tokens', htokens'⟩ := h'
  exact ⟨tokens ++ tokens', takes_append.mpr ⟨mid, htokens, htokens'⟩⟩

theorem leads_skip {word : String} (h : ws.peek? = some word) : ws.Leads ws.skip := by
  obtain ⟨k, rest⟩ := ws
  cases rest with
  | nil => simp [peek?] at h
  | cons token rest => exact ⟨[token], rfl, rfl⟩

/-- The position tells whether a word was read. -/
theorem Leads.index_eq_iff (h : ws.Leads left) : left.index = ws.index ↔ left = ws := by
  obtain ⟨tokens, htokens⟩ := h
  constructor
  · intro heq
    obtain rfl := htokens.index_eq_iff.mp heq
    exact takes_nil.mp htokens
  · rintro rfl
    rfl

theorem peek?_eq_none_iff : ws.peek? = none ↔ ws.rest = [] := by
  simp [peek?]

theorem atEnd_iff : ws.atEnd = true ↔ ws.peek? = none := by
  rw [peek?_eq_none_iff, atEnd, List.isEmpty_iff]

end Words

/-! ## Readers that hold their words -/

/-- A reader that holds the unread words of its line, and still holds them when
it complains. -/
abbrev LineReader (α : Type) := EStateM LineFault Words α

namespace LineReader

/-- Complain that something is missing. -/
def missing {α : Type} (complaint : Complaint) : LineReader α :=
  throw ⟨complaint, none⟩

/-- Complain about the next word. -/
def objectTo {α : Type} (complaint : Complaint) : LineReader α := do
  throw ⟨complaint, some (← get).index⟩

/-- Read one word. -/
def skip : LineReader Unit :=
  modify Words.skip

/-- Read a word that has a meaning. -/
def operand {α : Type} (meaning? : String → Option α) (absent : Complaint)
    (invalid : String → Complaint) : LineReader α := do
  match (← get).peek? with
  | none => missing absent
  | some word =>
      match meaning? word with
      | some a => do
          skip
          return a
      | none => objectTo (invalid word)

/-- The color after `write`. -/
def color (ctx : LineContext) : LineReader Color :=
  operand ctx.vocabulary.color? .missingColor .invalidColor

/-- The color after `if` or `while`. -/
def condition (ctx : LineContext) : LineReader Color :=
  operand ctx.vocabulary.condition? (.missingCondition ctx.vocabulary.conditionNoun)
    (.invalidCondition · ctx.vocabulary.conditionNoun)

/-- The direction after the move word. -/
def direction (ctx : LineContext) : LineReader Direction :=
  operand ctx.vocabulary.direction? .missingDirection .invalidDirection

/-- The label after `goto`. -/
def label (ctx : LineContext) : LineReader String :=
  operand (fun word => if ctx.vocabulary.isReserved word then none else some word) .missingLabel
    .reservedLabel

/-- The status after `exit`. -/
def status : LineReader Status := do
  match (← get).peek? with
  | none => return 0
  | some word =>
      match Text.int32? word with
      | none => return 0
      | some number =>
          if 0 ≤ number then do
            skip
            return UInt32.ofNat number.toNat
          else objectTo (.invalidStatus word)

/-- `write` and a color, or nothing. -/
def write (ctx : LineContext) : LineReader (Option Color) := do
  if (← get).startsWith "write" then do
    skip
    return some (← color ctx)
  else return none

/-- A move, or nothing. -/
def move (ctx : LineContext) : LineReader Direction := do
  match ctx.vocabulary.moveWord with
  | some word =>
      if (← get).startsWith word then do
        skip
        direction ctx
      else return .nowhere
  | none =>
      match (← get).peek?.bind ctx.vocabulary.direction? with
      | some direction => do
          skip
          return direction
      | none => return .nowhere

/-- A jump, or nothing, which is `otherwise`. -/
def jump (ctx : LineContext) (otherwise : Goto) : LineReader Goto := do
  let ws ← get
  if ws.startsWith "repeat" then do
    skip
    return .line ctx.line
  else if ws.startsWith "goto" then do
    skip
    return .label (← label ctx)
  else if ws.startsWith "exit" then do
    skip
    return .exit (← status)
  else return otherwise

/-- An action, each of its three parts optional. -/
def action (ctx : LineContext) (otherwise : Goto) : LineReader (Action Goto) := do
  let write ← write ctx
  let direction ← move ctx
  let target ← jump ctx otherwise
  return ⟨write, direction, target⟩

/-- An action after `keyword`, which may not be empty. -/
def requiredAction (ctx : LineContext) (keyword : String) (otherwise : Goto) :
    LineReader (Action Goto) := do
  let start ← get
  if start.atEnd then missing (.missingAction keyword)
  else
    let action ← action ctx otherwise
    let ws ← get
    if ws.index = start.index then objectTo (.notAnAction (ws.peek?.getD "") keyword)
    else return action

/-- `else` and an action, or nothing. -/
def alternative (ctx : LineContext) : LineReader (Action Goto) := do
  if (← get).startsWith "else" then do
    skip
    requiredAction ctx "else" ctx.nextLine
  else return .goOn ctx.nextLine

/-- What follows `if` or `while`. -/
def conditional (ctx : LineContext) (keyword : String) (otherwise : Goto) :
    LineReader (Instruction Goto) := do
  let condition ← condition ctx
  let consequent ← requiredAction ctx keyword otherwise
  let alternative ← alternative ctx
  if condition.isWhite then return ⟨consequent, alternative, .conditional⟩
  else return ⟨alternative, consequent, .conditional⟩

/-- The same action for every pixel, or a placeholder. -/
def unconditional (ctx : LineContext) : LineReader (Instruction Goto) := do
  let start ← get
  let action ← action ctx ctx.nextLine
  let ws ← get
  return ⟨action, action, if ws.index = start.index then .placeholder else .unconditional⟩

/-- The instruction after the label. -/
def body (ctx : LineContext) : LineReader (Instruction Goto) := do
  let ws ← get
  if ws.startsWith "if" then do
    skip
    conditional ctx "if" ctx.nextLine
  else if ctx.vocabulary.hasLoops && ws.startsWith "while" then do
    skip
    conditional ctx "while" (.line ctx.line)
  else unconditional ctx

/-- The instruction after the label, which has to be all that is left. -/
def wholeBody (ctx : LineContext) : LineReader (Instruction Goto) := do
  let start ← get
  let instruction ← body ctx
  let ws ← get
  match ws.peek? with
  | none => return instruction
  | some word =>
      if ws.index = start.index then objectTo (.notAnInstruction word)
      else objectTo (.notOnThisLine word)

/-- Declare the label that is the next word, and read it and its colon. -/
def declare (ctx : LineContext) (labels : Labels) (name : String) : LineReader Labels := do
  if ctx.vocabulary.isReserved name then objectTo (.reservedLabel name)
  else
    match labels.lookup name with
    | some line => objectTo (.repeatedLabel name line)
    | none => do
        skip
        skip
        return labels ++ [(name, ctx.line)]

/-- Read a whole line. -/
def instruction (ctx : LineContext) (labels : Labels) :
    LineReader (Instruction Goto × Labels) := do
  match (← get).rest with
  | [] =>
      if ctx.vocabulary.allowsPlaceholders then return (← wholeBody ctx, labels)
      else missing .emptyLine
  | .colon :: _ => missing .noLabelBeforeColon
  | .word name :: .colon :: _ => do
      let labels ← declare ctx labels name
      if (← get).atEnd && !ctx.vocabulary.allowsPlaceholders then missing .nothingAfterLabel
      else return (← wholeBody ctx, labels)
  | _ => return (← wholeBody ctx, labels)

/-! ## Every fault is raised where it points -/

/-- What a reader did from `ws` on is what `r` says: it read some words and
gave what `r` gives of them, or it read some words and raised the fault of `r`,
which is about the place it was raised at. -/
inductive Tracks {α β : Type} (labels : Labels) (give : α → Words → β) (ws : Words) :
    EStateM.Result LineFault Words α → Except LineFault β → Prop where
  | ok {a : α} {left : Words} (hleads : ws.Leads left) :
      Tracks labels give ws (.ok a left) (.ok (give a left))
  | error {f : LineFault} {left : Words} (hleads : ws.Leads left) (hat : f.IsAt labels left) :
      Tracks labels give ws (.error f left) (.error f)

section

variable {α β γ δ : Type} {labels : Labels} {give : α → Words → β} {give' : γ → Words → δ}
  {ws mid : Words}

theorem Tracks.of_leads {result : EStateM.Result LineFault Words α} {r : Except LineFault β}
    (hmid : ws.Leads mid) (h : Tracks labels give mid result r) :
    Tracks labels give ws result r := by
  cases h with
  | ok hleads => exact .ok (hmid.trans hleads)
  | error hleads hat => exact .error (hmid.trans hleads) hat

/-- Two readers in a row. The second begins where the first led. -/
theorem Tracks.bind {reader : LineReader α} {next : α → LineReader γ} {r : Except LineFault β}
    {next' : β → Except LineFault δ} (h : Tracks labels give ws (reader.run ws) r)
    (hnext : ∀ a left, reader.run ws = .ok a left → ws.Leads left →
      Tracks labels give' left ((next a).run left) (next' (give a left))) :
    Tracks labels give' ws ((reader >>= next).run ws) (r >>= next') := by
  change Tracks labels give' ws (EStateM.bind reader next ws) _
  unfold EStateM.bind
  unfold EStateM.run at h hnext
  generalize reader ws = result at h hnext
  cases h with
  | ok hleads => exact .of_leads hleads (hnext _ _ rfl hleads)
  | error hleads hat => exact .error hleads hat

theorem Tracks.same (a : α) (ws : Words) :
    Tracks labels give ws ((pure a : LineReader α).run ws) (.ok (give a ws)) :=
  .ok (.refl ws)

theorem Tracks.get {next : Words → LineReader α} {r : Except LineFault β}
    (h : Tracks labels give ws ((next ws).run ws) r) :
    Tracks labels give ws (((get : LineReader Words) >>= next).run ws) r :=
  h

theorem Tracks.skip {next : Unit → LineReader α} {r : Except LineFault β} {word : String}
    (hpeek : ws.peek? = some word) (h : Tracks labels give ws.skip ((next ()).run ws.skip) r) :
    Tracks labels give ws ((LineReader.skip >>= next).run ws) r :=
  .of_leads (Words.leads_skip hpeek) h

theorem Tracks.keyword {next : Unit → LineReader α} {r : Except LineFault β} {word : String}
    (hstarts : ws.startsWith word = true)
    (h : Tracks labels give ws.skip ((next ()).run ws.skip) r) :
    Tracks labels give ws ((LineReader.skip >>= next).run ws) r :=
  .skip (Words.startsWith_iff.mp hstarts) h

theorem missing_tracks {complaint : Complaint} (hfound : complaint.found? = none)
    (hpeek : ws.peek? = none) :
    Tracks labels give ws ((missing complaint).run ws) (LineContext.missing complaint) := by
  refine .error (.refl ws) ⟨hfound.trans hpeek.symm, by rw [hpeek]; rfl, ?_⟩
  rintro name line (rfl : complaint = _)
  cases hfound

theorem objectTo_tracks {complaint : Complaint} {word : String}
    (hfound : complaint.found? = some word)
    (hdeclared : ∀ name line, complaint = .repeatedLabel name line →
      labels.lookup name = some line) (hpeek : ws.peek? = some word) :
    Tracks labels give ws ((objectTo complaint).run ws) (LineContext.objectTo ws complaint) :=
  .error (.refl ws) ⟨hfound.trans hpeek.symm, by rw [hpeek]; rfl, hdeclared⟩

end

variable {ctx : LineContext} {labels : Labels}

/-- An operand is read, objected to, or missing. -/
theorem operand_tracks {α : Type} {meaning? : String → Option α} {absent : Complaint}
    {invalid : String → Complaint} {ws : Words} {r : Except LineFault (α × Words)}
    (habsent : absent.found? = none) (hinvalid : ∀ word, (invalid word).found? = some word)
    (hnew : ∀ word name line, invalid word ≠ .repeatedLabel name line)
    (hr : r = ws.peek?.elim (LineContext.missing absent) fun word =>
      (meaning? word).elim (LineContext.objectTo ws (invalid word)) fun a => .ok (a, ws.skip)) :
    Tracks labels Prod.mk ws ((operand meaning? absent invalid).run ws) r := by
  subst hr
  refine .get ?_
  cases hpeek : ws.peek? with
  | none => exact missing_tracks habsent hpeek
  | some word =>
    dsimp only [Option.elim]
    cases meaning? word with
    | none => exact objectTo_tracks (hinvalid word) (fun _ _ h => absurd h (hnew word _ _)) hpeek
    | some a => exact .skip hpeek (.same a ws.skip)

theorem color_tracks (ws : Words) : Tracks labels Prod.mk ws ((color ctx).run ws) (ctx.color ws) :=
  operand_tracks rfl (fun _ => rfl) nofun (by grind [LineContext.color])

theorem condition_tracks (ws : Words) :
    Tracks labels Prod.mk ws ((condition ctx).run ws) (ctx.condition ws) :=
  operand_tracks rfl (fun _ => rfl) nofun (by grind [LineContext.condition])

theorem direction_tracks (ws : Words) :
    Tracks labels Prod.mk ws ((direction ctx).run ws) (ctx.direction ws) :=
  operand_tracks rfl (fun _ => rfl) nofun (by grind [LineContext.direction])

theorem label_tracks (ws : Words) : Tracks labels Prod.mk ws ((label ctx).run ws) (ctx.label ws) :=
  operand_tracks rfl (fun _ => rfl) nofun (by grind [LineContext.label])

theorem status_tracks (ws : Words) :
    Tracks labels Prod.mk ws (status.run ws) (LineContext.status ws) := by
  unfold LineContext.status
  refine .get ?_
  cases hpeek : ws.peek? with
  | none => exact .same 0 ws
  | some word =>
    dsimp only
    cases Text.int32? word with
    | none => exact .same 0 ws
    | some number =>
      dsimp only
      split
      · exact .skip hpeek (.same _ ws.skip)
      · exact objectTo_tracks rfl nofun hpeek

theorem write_tracks (ws : Words) :
    Tracks labels Prod.mk ws ((write ctx).run ws) (ctx.write ws) := by
  unfold LineContext.write
  refine .get ?_
  split
  · next hstarts =>
    refine .keyword hstarts ?_
    exact (color_tracks ws.skip).bind fun color left _ _ => .same (some color) left
  · exact .same none ws

theorem move_tracks (ws : Words) : Tracks labels Prod.mk ws ((move ctx).run ws) (ctx.move ws) := by
  unfold move LineContext.move
  cases ctx.vocabulary.moveWord with
  | some word =>
    refine .get ?_
    dsimp only
    split
    · next hstarts => exact .keyword hstarts (direction_tracks ws.skip)
    · exact .same Direction.nowhere ws
  | none =>
    refine .get ?_
    dsimp only
    cases hdirection : ws.peek?.bind ctx.vocabulary.direction? with
    | none => exact .same Direction.nowhere ws
    | some direction =>
      obtain ⟨word, hpeek, -⟩ := Option.bind_eq_some_iff.mp hdirection
      exact .skip hpeek (.same direction ws.skip)

theorem jump_tracks (otherwise : Goto) (ws : Words) :
    Tracks labels Prod.mk ws ((jump ctx otherwise).run ws) (ctx.jump otherwise ws) := by
  unfold LineContext.jump
  refine .get ?_
  split
  · next hstarts => exact .keyword hstarts (.same _ ws.skip)
  · split
    · next hstarts =>
      refine .keyword hstarts ?_
      exact (label_tracks ws.skip).bind fun name left _ _ => .same (Goto.label name) left
    · split
      · next hstarts =>
        refine .keyword hstarts ?_
        exact (status_tracks ws.skip).bind fun status left _ _ => .same (Goto.exit status) left
      · exact .same otherwise ws

theorem action_tracks (otherwise : Goto) (ws : Words) :
    Tracks labels Prod.mk ws ((action ctx otherwise).run ws) (ctx.action otherwise ws) := by
  refine (write_tracks ws).bind fun write ws₁ _ _ => ?_
  refine (move_tracks ws₁).bind fun direction ws₂ _ _ => ?_
  refine (jump_tracks otherwise ws₂).bind fun target ws₃ _ _ => ?_
  exact .same (Action.mk write direction target) ws₃

theorem requiredAction_tracks (keyword : String) (otherwise : Goto) (ws : Words) :
    Tracks labels Prod.mk ws ((requiredAction ctx keyword otherwise).run ws)
      (ctx.requiredAction keyword otherwise ws) := by
  unfold LineContext.requiredAction
  refine .get ?_
  split
  · next hend => exact missing_tracks rfl (Words.atEnd_iff.mp hend)
  · next hend =>
    obtain ⟨word, hpeek⟩ := Option.ne_none_iff_exists'.mp (mt Words.atEnd_iff.mpr hend)
    refine (action_tracks otherwise ws).bind fun action left _ hleads => .get ?_
    dsimp only
    split
    · next heq =>
      -- nothing was read, so the fault is raised where the action should begin
      obtain rfl := hleads.index_eq_iff.mp heq
      exact objectTo_tracks (by simp [Complaint.found?, hpeek]) nofun hpeek
    · exact .same action left

theorem alternative_tracks (ws : Words) :
    Tracks labels Prod.mk ws ((alternative ctx).run ws) (ctx.alternative ws) := by
  unfold LineContext.alternative
  refine .get ?_
  split
  · next hstarts =>
    refine .keyword hstarts ?_
    exact requiredAction_tracks "else" ctx.nextLine ws.skip
  · exact .same _ ws

theorem conditional_tracks (keyword : String) (otherwise : Goto) (ws : Words) :
    Tracks labels Prod.mk ws ((conditional ctx keyword otherwise).run ws)
      (ctx.conditional keyword otherwise ws) := by
  refine (condition_tracks ws).bind fun condition ws₁ _ _ => ?_
  refine (requiredAction_tracks keyword otherwise ws₁).bind fun consequent ws₂ _ _ => ?_
  refine (alternative_tracks ws₂).bind fun alternative ws₃ _ _ => ?_
  dsimp only
  split <;> exact .same _ ws₃

theorem unconditional_tracks (ws : Words) :
    Tracks labels Prod.mk ws ((unconditional ctx).run ws) (ctx.unconditional ws) :=
  .get ((action_tracks ctx.nextLine ws).bind fun _ left _ _ => .get (.same _ left))

theorem body_tracks (ws : Words) : Tracks labels Prod.mk ws ((body ctx).run ws) (ctx.body ws) := by
  unfold LineContext.body
  refine .get ?_
  split
  · next hstarts =>
    refine .keyword hstarts ?_
    exact conditional_tracks "if" ctx.nextLine ws.skip
  · split
    · next hstarts =>
      obtain ⟨-, hstarts⟩ := (Bool.and_eq_true _ _).mp hstarts
      refine .keyword hstarts ?_
      exact conditional_tracks "while" (.line ctx.line) ws.skip
    · exact unconditional_tracks ws

/-- What the body leaves is not on this line. -/
theorem wholeBody_tracks (ws : Words) :
    Tracks labels (fun i _ => i) ws ((wholeBody ctx).run ws) (ctx.wholeBody ws) := by
  refine .get ((body_tracks ws).bind fun i left _ _ => .get ?_)
  dsimp only
  cases hpeek : left.peek? with
  | none => exact .same i left
  | some word =>
    dsimp only
    split <;> exact objectTo_tracks rfl nofun hpeek

section

variable {tokens rest : List Token} {name : String}

theorem declare_tracks (labels : Labels) (name : String) (rest : List Token) :
    Tracks labels (fun labels _ => labels) (Words.ofTokens (.word name :: .colon :: rest))
      ((declare ctx labels name).run (Words.ofTokens (.word name :: .colon :: rest)))
      (ctx.declare labels name (Words.ofTokens (.word name :: .colon :: rest))) := by
  unfold declare LineContext.declare
  split
  · exact objectTo_tracks rfl nofun rfl
  · cases hlookup : labels.lookup name with
    | some line => exact objectTo_tracks rfl (fun _ _ h => by cases h; exact hlookup) rfl
    | none => exact .skip rfl (.skip rfl (.same _ ⟨2, rest⟩))

/-- A label and its colon are two words. -/
theorem declare_left {labels' : Labels} {left : Words}
    (h : (declare ctx labels name).run (Words.ofTokens (.word name :: .colon :: rest)) =
      .ok labels' left) : left = ⟨2, rest⟩ := by
  unfold declare at h
  split at h
  · cases h
  · cases hlookup : labels.lookup name with
    | some line => simp only [hlookup] at h; cases h
    | none => simp only [hlookup] at h; cases h; rfl

/-- A line that does not begin with a colon is read with every fault in its
place. -/
theorem instruction_tracks (ctx : LineContext) (labels : Labels)
    (hcolon : tokens.head? ≠ some .colon) :
    Tracks labels (fun result _ => result) (Words.ofTokens tokens)
      ((instruction ctx labels).run (Words.ofTokens tokens)) (ctx.instruction labels tokens) := by
  have hbody : ∀ (after : Labels) (ws : Words),
      Tracks labels (fun result _ => result) ws
        ((do return (← wholeBody ctx, after) : LineReader (Instruction Goto × Labels)).run ws)
        (do return (← ctx.wholeBody ws, after)) :=
    fun after ws => (wholeBody_tracks ws).bind fun i left _ _ => .same (i, after) left
  unfold LineContext.instruction
  refine .get ?_
  match tokens, hcolon with
  | [], _ =>
    dsimp only [Words.ofTokens]
    split
    · exact hbody _ _
    · exact missing_tracks rfl rfl
  | .colon :: _, hcolon => exact absurd rfl hcolon
  | .word name :: .colon :: rest, _ =>
    refine (declare_tracks labels name rest).bind fun after left hdeclare _ => .get ?_
    obtain rfl := declare_left hdeclare
    change Tracks labels _ _ ((if rest.isEmpty && !ctx.vocabulary.allowsPlaceholders then _ else _ :
      LineReader _).run _) _
    split
    · next hempty =>
      obtain ⟨hempty, -⟩ := (Bool.and_eq_true _ _).mp hempty
      exact missing_tracks rfl (Words.atEnd_iff.mp hempty)
    · exact hbody _ _
  | [.word name], _ => exact hbody _ _
  | .word name :: .word name' :: rest, _ => exact hbody _ _

end

/-! ## The reader without its words -/

/-- What a reader gives or raises. -/
def outcome {α : Type} : EStateM.Result LineFault Words α → Except LineFault α
  | .ok a _ => .ok a
  | .error f _ => .error f

theorem Tracks.outcome_eq {α : Type} {ws : Words} {result : EStateM.Result LineFault Words α}
    {r : Except LineFault α} (h : Tracks labels (fun a _ => a) ws result r) :
    outcome result = r := by
  cases h <;> rfl

/-- Without its words this is the reader of a line. -/
theorem outcome_instruction (labels : Labels) (tokens : List Token) :
    outcome ((instruction ctx labels).run (Words.ofTokens tokens)) =
      ctx.instruction labels tokens := by
  match tokens with
  | .colon :: _ => rfl
  | [] | .word _ :: _ => exact (instruction_tracks ctx labels (by simp)).outcome_eq

/-- Where a line is rejected the fault is in its place, or the line begins with
a colon. -/
theorem exists_left_of_error {tokens : List Token} {f : LineFault}
    (h : ctx.instruction labels tokens = .error f) :
    ∃ left, (instruction ctx labels).run (Words.ofTokens tokens) = .error f left ∧
      ((Words.ofTokens tokens).Leads left ∧ f.IsAt labels left ∨
        tokens.head? = some .colon ∧ f = ⟨.noLabelBeforeColon, none⟩) := by
  by_cases hcolon : tokens.head? = some .colon
  · obtain ⟨rest, rfl⟩ := List.head?_eq_some_iff.mp hcolon
    obtain rfl : ⟨.noLabelBeforeColon, none⟩ = f := Except.error.inj h
    exact ⟨_, rfl, .inr ⟨rfl, rfl⟩⟩
  · have htracks := instruction_tracks ctx labels hcolon
    rw [h] at htracks
    generalize (instruction ctx labels).run (Words.ofTokens tokens) = result at htracks
    cases htracks with
    | error hleads hat => exact ⟨_, rfl, .inl ⟨hleads, hat⟩⟩

end LineReader

end PixelTurtle
