/-
PixelTurtle.Proofs.LineByLine — a source is read from the top, and what a line
is taken for depends on no line after it.

A line is read with the comment and the labels that the lines before it leave;
`Reader` holds both. `Reader.Reads` and `Reader.Rejects` are the two ways that
reading can go: line after line to the end, or up to the first line that is
rejected.

* `Draft.ofSource_eq_error_iff`, `Draft.ofSource_eq_ok_iff` — these are all the
  ways, but for a comment that is still open at the end.
* `Reader.Rejects.congr` — a line that is rejected is rejected the same in
  every source that begins with the same lines. A reader knows the number of
  its line and of all lines, but only to tell where the line goes on, and no
  complaint is about that (`LineContext.Matches`, `LineContext.instruction_agree`).
* `openSince_iff` — a comment that is open at the end was opened on the line
  that the fault names.
* `Reader.Reads.names` — the labels are those that some line begins with.
-/
import PixelTurtle.Proofs.Reading

namespace PixelTurtle

/-! ## Lines that are read alike -/

/-- Both fail, with one fault, or neither does and the results are related. -/
inductive Agree {ε α : Type} (R : α → α → Prop) : Except ε α → Except ε α → Prop where
  | error (fault : ε) : Agree R (.error fault) (.error fault)
  | ok {a b : α} (h : R a b) : Agree R (.ok a) (.ok b)

namespace Agree

variable {ε α β : Type} {R : α → α → Prop} {S : β → β → Prop}

theorem bind {r r' : Except ε α} {next next' : α → Except ε β} (h : Agree R r r')
    (hnext : ∀ a a', R a a' → Agree S (next a) (next' a')) :
    Agree S (r >>= next) (r' >>= next') := by
  cases h with
  | error fault => exact .error fault
  | ok ha => exact hnext _ _ ha

theorem same (r : Except ε α) {next next' : α → Except ε β}
    (hnext : ∀ a, Agree S (next a) (next' a)) : Agree S (r >>= next) (r >>= next') := by
  cases r with
  | error fault => exact .error fault
  | ok a => exact hnext a

theorem ok_right {r r' : Except ε α} (h : Agree R r r') {a : α} (hr : r = .ok a) :
    ∃ a', r' = .ok a' ∧ R a a' := by
  cases h with
  | error fault => simp at hr
  | ok ha =>
    obtain rfl := Except.ok.inj hr
    exact ⟨_, rfl, ha⟩

theorem error_right {r r' : Except ε α} (h : Agree R r r') {fault : ε} (hr : r = .error fault) :
    r' = .error fault := by
  cases h with
  | error fault => exact hr
  | ok ha => simp at hr

end Agree

/-- The two actions write and move the same, and their targets are related. -/
structure Action.Like {τ : Type} (R : τ → τ → Prop) (a b : Action τ) : Prop where
  write : b.write = a.write
  direction : b.direction = a.direction
  target : R a.target b.target

/-- The two instructions are of one kind, and so are their actions. -/
structure Instruction.Like {τ : Type} (R : τ → τ → Prop) (i j : Instruction τ) : Prop where
  kind : j.kind = i.kind
  action : ∀ slot, (i.action slot).Like R (j.action slot)

namespace LineContext

/-- The results are related and leave the same behind: words for the next
reader, or labels for the next line. -/
def Leaves {α σ : Type} (R : α → α → Prop) (a b : α × σ) : Prop :=
  R a.1 b.1 ∧ a.2 = b.2

/-- Two lines are read in one vocabulary, and what one says of its place is
related to what the other says. -/
structure Matches (R : Goto → Goto → Prop) (ctx ctx' : LineContext) : Prop where
  vocabulary : ctx'.vocabulary = ctx.vocabulary
  line : R (.line ctx.line) (.line ctx'.line)
  nextLine : R ctx.nextLine ctx'.nextLine
  label : ∀ name, R (.label name) (.label name)
  exit : ∀ status, R (.exit status) (.exit status)

namespace Matches

variable {R : Goto → Goto → Prop} {ctx ctx' : LineContext} {otherwise otherwise' : Goto}

/-! Words are read in the same way on both lines. -/

theorem write_eq (h : Matches R ctx ctx') (ws : Words) : ctx'.write ws = ctx.write ws := by
  simp only [LineContext.write, LineContext.color, h.vocabulary]

theorem move_eq (h : Matches R ctx ctx') (ws : Words) : ctx'.move ws = ctx.move ws := by
  simp only [LineContext.move, LineContext.direction, h.vocabulary]

theorem label_eq (h : Matches R ctx ctx') (ws : Words) : ctx'.label ws = ctx.label ws := by
  simp only [LineContext.label, h.vocabulary]

theorem condition_eq (h : Matches R ctx ctx') (ws : Words) :
    ctx'.condition ws = ctx.condition ws := by
  simp only [LineContext.condition, h.vocabulary]

theorem jump (h : Matches R ctx ctx') (hotherwise : R otherwise otherwise') (ws : Words) :
    Agree (Leaves R) (ctx.jump otherwise ws) (ctx'.jump otherwise' ws) := by
  unfold LineContext.jump
  split
  · exact .ok ⟨h.line, rfl⟩
  · rw [h.label_eq]
    split
    · exact .same _ fun found => .ok ⟨h.label found.1, rfl⟩
    · split
      · exact .same _ fun found => .ok ⟨h.exit found.1, rfl⟩
      · exact .ok ⟨hotherwise, rfl⟩

theorem action (h : Matches R ctx ctx') (hotherwise : R otherwise otherwise') (ws : Words) :
    Agree (Leaves (Action.Like R)) (ctx.action otherwise ws) (ctx'.action otherwise' ws) := by
  unfold LineContext.action
  rw [h.write_eq]
  refine .same _ ?_
  rintro ⟨write, ws₁⟩
  dsimp only
  rw [h.move_eq]
  refine .same _ ?_
  rintro ⟨direction, ws₂⟩
  refine (h.jump hotherwise ws₂).bind ?_
  rintro ⟨target, ws₃⟩ ⟨target', _⟩ ⟨htarget, rfl⟩
  exact .ok ⟨⟨rfl, rfl, htarget⟩, rfl⟩

theorem requiredAction (h : Matches R ctx ctx') (keyword : String)
    (hotherwise : R otherwise otherwise') (ws : Words) :
    Agree (Leaves (Action.Like R)) (ctx.requiredAction keyword otherwise ws)
      (ctx'.requiredAction keyword otherwise' ws) := by
  unfold LineContext.requiredAction
  split
  · exact .error _
  · refine (h.action hotherwise ws).bind ?_
    rintro ⟨a, left⟩ ⟨a', _⟩ ⟨ha, rfl⟩
    dsimp only
    split
    · exact .error _
    · exact .ok ⟨ha, rfl⟩

theorem alternative (h : Matches R ctx ctx') (ws : Words) :
    Agree (Leaves (Action.Like R)) (ctx.alternative ws) (ctx'.alternative ws) := by
  unfold LineContext.alternative
  split
  · exact h.requiredAction "else" h.nextLine ws.skip
  · exact .ok ⟨⟨rfl, rfl, h.nextLine⟩, rfl⟩

theorem conditional (h : Matches R ctx ctx') (keyword : String)
    (hotherwise : R otherwise otherwise') (ws : Words) :
    Agree (Leaves (Instruction.Like R)) (ctx.conditional keyword otherwise ws)
      (ctx'.conditional keyword otherwise' ws) := by
  unfold LineContext.conditional
  rw [h.condition_eq]
  refine .same _ ?_
  rintro ⟨condition, ws₁⟩
  refine (h.requiredAction keyword hotherwise ws₁).bind ?_
  rintro ⟨consequent, ws₂⟩ ⟨consequent', _⟩ ⟨hconsequent, rfl⟩
  refine (h.alternative ws₂).bind ?_
  rintro ⟨alternative, ws₃⟩ ⟨alternative', _⟩ ⟨halternative, rfl⟩
  dsimp only
  split
  · exact .ok ⟨⟨rfl, fun slot => by cases slot <;> assumption⟩, rfl⟩
  · exact .ok ⟨⟨rfl, fun slot => by cases slot <;> assumption⟩, rfl⟩

theorem unconditional (h : Matches R ctx ctx') (ws : Words) :
    Agree (Leaves (Instruction.Like R)) (ctx.unconditional ws) (ctx'.unconditional ws) := by
  unfold LineContext.unconditional
  refine (h.action h.nextLine ws).bind ?_
  rintro ⟨a, left⟩ ⟨a', _⟩ ⟨ha, rfl⟩
  exact .ok ⟨⟨rfl, fun slot => by cases slot <;> exact ha⟩, rfl⟩

theorem body (h : Matches R ctx ctx') (ws : Words) :
    Agree (Leaves (Instruction.Like R)) (ctx.body ws) (ctx'.body ws) := by
  unfold LineContext.body
  rw [h.vocabulary]
  split
  · exact h.conditional "if" h.nextLine ws.skip
  · split
    · exact h.conditional "while" h.line ws.skip
    · exact h.unconditional ws

theorem wholeBody (h : Matches R ctx ctx') (ws : Words) :
    Agree (Instruction.Like R) (ctx.wholeBody ws) (ctx'.wholeBody ws) := by
  unfold LineContext.wholeBody
  refine (h.body ws).bind ?_
  rintro ⟨i, left⟩ ⟨i', _⟩ ⟨hi, rfl⟩
  dsimp only
  split
  · exact .ok hi
  · split
    · exact .error _
    · exact .error _

end Matches

/-- The number of lines is no part of what is read. -/
theorem matches_lineCount (ctx : LineContext) (lineCount : Nat) :
    Matches (fun _ _ => True) ctx { ctx with lineCount } :=
  ⟨rfl, trivial, trivial, fun _ => trivial, fun _ => trivial⟩

/-- The number of lines decides neither whether a line is rejected nor what it
declares. -/
theorem instruction_agree (ctx : LineContext) (lineCount : Nat) (labels : Labels)
    (tokens : List Token) :
    Agree (Leaves (Instruction.Like fun _ _ => True)) (ctx.instruction labels tokens)
      ({ ctx with lineCount }.instruction labels tokens) := by
  have hbody := (ctx.matches_lineCount lineCount).wholeBody
  unfold LineContext.instruction
  dsimp only
  split
  · split
    · exact (hbody _).bind fun _ _ hi => .ok ⟨hi, rfl⟩
    · exact .error _
  · exact .error _
  · refine .same _ ?_
    intro declared
    split
    · exact .error _
    · exact (hbody _).bind fun _ _ hi => .ok ⟨hi, rfl⟩
  · exact (hbody _).bind fun _ _ hi => .ok ⟨hi, rfl⟩

end LineContext

/-! ## From line to line -/

/-- How far a source was read: the next line, and what the lines before it
leave. -/
structure Reader where
  line : Nat
  comment : Comment
  labels : Labels

namespace Reader

/-- Before the first line. -/
def start : Reader :=
  ⟨0, .closed, []⟩

/-- Read the next line. -/
def read (v : Vocabulary) (lineCount : Nat) (s : Reader) (text : List Char) :
    Except LineFault (Instruction Goto × Reader) := do
  let (tokens, comment) := lex s.line s.comment text
  let (i, labels) ← LineContext.instruction ⟨v, s.line, lineCount⟩ s.labels tokens
  return (i, ⟨s.line + 1, comment, labels⟩)

/-- Every line is read. -/
inductive Reads (v : Vocabulary) (lineCount : Nat) :
    Reader → List (List Char) → List (Instruction Goto) → Reader → Prop where
  | nil (s : Reader) : Reads v lineCount s [] [] s
  | cons {s s' s'' : Reader} {text : List Char} {texts : List (List Char)} {i : Instruction Goto}
      {is : List (Instruction Goto)} (first : s.read v lineCount text = .ok (i, s'))
      (rest : Reads v lineCount s' texts is s'') : Reads v lineCount s (text :: texts) (i :: is) s''

/-- The line at an index is rejected, given the comment and the labels that the
lines before it leave, and all of those are read. -/
inductive Rejects (v : Vocabulary) (lineCount : Nat) :
    Reader → List (List Char) → Nat → LineFault → Prop where
  | here {s : Reader} {text : List Char} {texts : List (List Char)} {f : LineFault}
      (h : s.read v lineCount text = .error f) : Rejects v lineCount s (text :: texts) 0 f
  | later {s s' : Reader} {text : List Char} {texts : List (List Char)} {i : Instruction Goto}
      {index : Nat} {f : LineFault} (first : s.read v lineCount text = .ok (i, s'))
      (rest : Rejects v lineCount s' texts index f) :
      Rejects v lineCount s (text :: texts) (index + 1) f

variable {v : Vocabulary} {lineCount : Nat} {s s' : Reader} {text : List Char}
  {texts : List (List Char)}

theorem read_spec {i : Instruction Goto} (h : s.read v lineCount text = .ok (i, s')) :
    LineContext.instruction ⟨v, s.line, lineCount⟩ s.labels (lex s.line s.comment text).1 =
        .ok (i, s'.labels) ∧
      s'.line = s.line + 1 ∧ s'.comment = (lex s.line s.comment text).2 := by
  unfold read at h
  obtain ⟨⟨j, labels⟩, hread, h⟩ := bind_eq_ok.mp h
  obtain ⟨rfl, rfl⟩ : j = i ∧ _ = s' := by simpa [pure, Except.pure] using h
  exact ⟨hread, rfl, rfl⟩

theorem read_agree (lineCount' : Nat) (s : Reader) (text : List Char) :
    Agree (LineContext.Leaves (Instruction.Like fun _ _ => True)) (s.read v lineCount text)
      (s.read v lineCount' text) := by
  unfold read
  have hagree := LineContext.instruction_agree ⟨v, s.line, lineCount⟩ lineCount' s.labels
    (lex s.line s.comment text).1
  refine hagree.bind ?_
  rintro _ _ ⟨hi, hlabels⟩
  exact .ok ⟨hi, congrArg (Reader.mk _ _) hlabels⟩

section

variable {s₁ s₂ : Reader} {texts' : List (List Char)} {is js : List (Instruction Goto)}

theorem Reads.append (h : Reads v lineCount s texts is s₁) (h' : Reads v lineCount s₁ texts' js s₂) :
    Reads v lineCount s (texts ++ texts') (is ++ js) s₂ := by
  induction h with
  | nil s => exact h'
  | cons first _ ih => exact .cons first (ih h')

theorem Reads.split (h : Reads v lineCount s (texts ++ texts') is s₂) :
    ∃ before after s₁, is = before ++ after ∧ Reads v lineCount s texts before s₁ ∧
      Reads v lineCount s₁ texts' after s₂ := by
  induction texts generalizing s is with
  | nil => exact ⟨[], is, s, rfl, .nil s, h⟩
  | cons text texts ih =>
    rw [List.cons_append] at h
    cases h with
    | cons first rest =>
      obtain ⟨before, after, s₁, rfl, hbefore, hafter⟩ := ih rest
      exact ⟨_ :: before, after, s₁, rfl, .cons first hbefore, hafter⟩

theorem Reads.line_eq (h : Reads v lineCount s texts is s₁) : s₁.line = s.line + texts.length := by
  induction h with
  | nil s => rfl
  | cons first _ ih =>
    rw [ih, (read_spec first).2.1, List.length_cons]
    omega

theorem Reads.length_eq (h : Reads v lineCount s texts is s₁) : is.length = texts.length := by
  induction h with
  | nil s => rfl
  | cons _ _ ih => rw [List.length_cons, List.length_cons, ih]

end

/-- A line that is rejected is rejected the same, whatever lines follow. -/
theorem Rejects.congr {index : Nat} {f : LineFault} (h : Rejects v lineCount s texts index f)
    {lineCount' : Nat} {texts' : List (List Char)}
    (hsame : texts'.take (index + 1) = texts.take (index + 1)) :
    Rejects v lineCount' s texts' index f := by
  induction h generalizing texts' with
  | @here s text _ f h =>
    cases texts' with
    | nil => simp at hsame
    | cons text' texts' =>
      obtain rfl : text' = text := by simpa using hsame
      exact .here ((read_agree lineCount' s text').error_right h)
  | @later s s' text _ i index f first _ ih =>
    cases texts' with
    | nil => simp at hsame
    | cons text' texts' =>
      rw [List.take_succ_cons, List.take_succ_cons] at hsame
      obtain ⟨rfl, hrest⟩ := List.cons.inj hsame
      obtain ⟨⟨i', s''⟩, hfirst, hleaves⟩ := (read_agree lineCount' s text').ok_right first
      obtain rfl : s' = s'' := hleaves.2
      exact .later hfirst (ih hrest)

end Reader

namespace Draft

open Reader

variable {v : Vocabulary} {lineCount : Nat}

/-- The loop over the lines, one line at a time. -/
theorem readLines_cons (s : Reader) (text : List Char) (texts : List (List Char)) :
    readLines v lineCount s.line s.comment s.labels (text :: texts) =
      match s.read v lineCount text with
      | .error f => .error (f.toFault s.line)
      | .ok (i, s') =>
          (readLines v lineCount s'.line s'.comment s'.labels texts).map
            (fun (is, labels) => (i :: is, labels)) := by
  rw [readLines, Reader.read]
  dsimp only
  cases LineContext.instruction ⟨v, s.line, lineCount⟩ s.labels (lex s.line s.comment text).1 with
  | error f => rfl
  | ok result =>
    dsimp only [bind, Except.bind, pure, Except.pure]
    cases readLines v lineCount (s.line + 1) (lex s.line s.comment text).2 result.2 texts <;> rfl

/-- Lines that are read are a draft, unless they leave a comment open. -/
theorem readLines_of_reads {s s' : Reader} {texts : List (List Char)}
    {is : List (Instruction Goto)} (h : Reads v lineCount s texts is s') :
    readLines v lineCount s.line s.comment s.labels texts =
      match s'.comment with
      | .closed => .ok (is, s'.labels)
      | .opened line => .error (unterminated line) := by
  induction h with
  | nil s => cases s.comment <;> rfl
  | @cons s s' s'' text texts i is first _ ih =>
    rw [readLines_cons, first]
    dsimp only
    rw [ih]
    cases s''.comment <;> rfl

theorem readLines_of_rejects {s : Reader} {texts : List (List Char)} {index : Nat}
    {f : LineFault} (h : Rejects v lineCount s texts index f) :
    readLines v lineCount s.line s.comment s.labels texts =
      .error (f.toFault (s.line + index)) := by
  induction h with
  | here h => rw [readLines_cons, h, Nat.add_zero]
  | @later s s' text texts i index f first _ ih =>
    rw [readLines_cons, first]
    dsimp only
    rw [ih, (read_spec first).2.1, Nat.add_assoc, Nat.add_comm 1]
    rfl

/-- Reading goes on to the end or to a line that is rejected. -/
theorem reads_or_rejects (v : Vocabulary) (lineCount : Nat) (texts : List (List Char)) :
    ∀ s : Reader, (∃ is s', Reads v lineCount s texts is s') ∨
      ∃ index f, Rejects v lineCount s texts index f := by
  induction texts with
  | nil =>
    intro s
    exact .inl ⟨[], s, .nil s⟩
  | cons text texts ih =>
    intro s
    cases hread : s.read v lineCount text with
    | error f => exact .inr ⟨0, f, .here hread⟩
    | ok result =>
      rcases ih result.2 with ⟨is, s', hreads⟩ | ⟨index, f, hrejects⟩
      · exact .inl ⟨result.1 :: is, s', .cons hread hreads⟩
      · exact .inr ⟨index + 1, f, .later hread hrejects⟩

/-! The same of a whole source. -/

/-- Every line of a source is read. -/
abbrev ReadsAll (dialect : Dialect) (source : String) (is : List (Instruction Goto))
    (s : Reader) : Prop :=
  Reads dialect.vocabulary (sourceLines source).length .start (sourceLines source) is s

/-- A line of a source is the first to be rejected. -/
abbrev RejectsLine (dialect : Dialect) (source : String) (n : Nat) (f : LineFault) : Prop :=
  Rejects dialect.vocabulary (sourceLines source).length .start (sourceLines source) n f

variable {dialect : Dialect} {source : String}

theorem ofSource_of_rejectsLine {n : Nat} {f : LineFault} (h : RejectsLine dialect source n f) :
    ofSource dialect source = .error (f.toFault n) := by
  have hlines := readLines_of_rejects h
  rw [start, Nat.zero_add] at hlines
  rw [ofSource, hlines]
  rfl

theorem ofSource_of_readsAll {is : List (Instruction Goto)} {s : Reader}
    (h : ReadsAll dialect source is s) :
    ofSource dialect source =
      match s.comment with
      | .closed => .ok ⟨dialect, is, s.labels⟩
      | .opened line => .error (unterminated line) := by
  have hlines := readLines_of_reads h
  rw [start] at hlines
  rw [ofSource, hlines]
  cases s.comment <;> rfl

theorem ofSource_eq_error_iff {fault : Fault} :
    ofSource dialect source = .error fault ↔
      (∃ n f, RejectsLine dialect source n f ∧ fault = f.toFault n) ∨
        ∃ is s opening, ReadsAll dialect source is s ∧ s.comment = .opened opening ∧
          fault = unterminated opening := by
  constructor
  · intro h
    rcases reads_or_rejects dialect.vocabulary _ (sourceLines source) .start with
      ⟨is, s, hreads⟩ | ⟨n, f, hrejects⟩
    · rw [ofSource_of_readsAll hreads] at h
      cases hcomment : s.comment with
      | closed => simp [hcomment] at h
      | opened opening =>
        rw [hcomment] at h
        exact .inr ⟨is, s, opening, hreads, hcomment, (Except.error.inj h).symm⟩
    · rw [ofSource_of_rejectsLine hrejects] at h
      exact .inl ⟨n, f, hrejects, (Except.error.inj h).symm⟩
  · rintro (⟨n, f, hrejects, rfl⟩ | ⟨is, s, opening, hreads, hcomment, rfl⟩)
    · exact ofSource_of_rejectsLine hrejects
    · rw [ofSource_of_readsAll hreads, hcomment]

theorem ofSource_eq_ok_iff {d : Draft} :
    ofSource dialect source = .ok d ↔
      ∃ is s, ReadsAll dialect source is s ∧ s.comment = .closed ∧
        d = ⟨dialect, is, s.labels⟩ := by
  constructor
  · intro h
    rcases reads_or_rejects dialect.vocabulary _ (sourceLines source) .start with
      ⟨is, s, hreads⟩ | ⟨n, f, hrejects⟩
    · rw [ofSource_of_readsAll hreads] at h
      cases hcomment : s.comment with
      | closed =>
        rw [hcomment] at h
        exact ⟨is, s, hreads, hcomment, (Except.ok.inj h).symm⟩
      | opened opening => simp [hcomment] at h
    · simp [ofSource_of_rejectsLine hrejects] at h
  · rintro ⟨is, s, hreads, hcomment, rfl⟩
    rw [ofSource_of_readsAll hreads, hcomment]

end Draft

/-! ## Comments -/

/-- The comment that lines leave open, from line `line` on. -/
def commentAfter (line : Nat) (comment : Comment) : List (List Char) → Comment
  | [] => comment
  | text :: rest => commentAfter (line + 1) (lex line comment text).2 rest

/-- A comment is open from one line on and to the end: after no line before it,
and after every line from it on. -/
structure OpenSince (lines : List (List Char)) (opening : Nat) : Prop where
  line_lt : opening < lines.length
  iff_le : ∀ j < lines.length,
    commentAfter 0 .closed (lines.take (j + 1)) = .opened opening ↔ opening ≤ j

theorem LexMode.comment_ofComment (comment : Comment) :
    (LexMode.ofComment comment).comment = comment := by
  cases comment <;> rfl

/-- A comment that is open after a line was open before it, or opened on it. -/
theorem scan_comment (line : Nat) (mode : LexMode) (pending text : List Char) {opening : Nat}
    (h : (scan line mode pending text).2 = .opened opening) :
    opening = line ∨ mode.comment = .opened opening := by
  fun_induction scan line mode pending text with
  | case1 => exact .inr h
  | case3 pending rest tokens comment hscan ih =>
    -- the line opens a comment here
    rw [hscan] at ih
    rcases ih h with hline | hopened
    · exact .inl hline
    · exact .inl (Comment.opened.inj hopened).symm
  | _ => simp_all [LexMode.comment]

theorem lex_comment {line : Nat} {comment : Comment} {text : List Char} {opening : Nat}
    (h : (lex line comment text).2 = .opened opening) :
    opening = line ∨ comment = .opened opening := by
  have hscan := scan_comment line (.ofComment comment) [] text h
  rwa [LexMode.comment_ofComment] at hscan

/-- A comment that is open after some lines was open before them, or opened on
one of them. -/
theorem commentAfter_eq_opened {opening : Nat} (texts : List (List Char)) :
    ∀ (line : Nat) (comment : Comment), commentAfter line comment texts = .opened opening →
      comment = .opened opening ∨ line ≤ opening ∧ opening < line + texts.length := by
  induction texts with
  | nil =>
    intro line comment h
    exact .inl h
  | cons text texts ih =>
    intro line comment h
    rcases ih _ _ h with hopen | ⟨hle, hlt⟩
    · rcases lex_comment hopen with rfl | hbefore
      · exact .inr ⟨Nat.le_refl _, by simp⟩
      · exact .inl hbefore
    · refine .inr ⟨by omega, ?_⟩
      simp only [List.length_cons]
      omega

theorem commentAfter_append (texts texts' : List (List Char)) :
    ∀ (line : Nat) (comment : Comment), commentAfter line comment (texts ++ texts') =
      commentAfter (line + texts.length) (commentAfter line comment texts) texts' := by
  induction texts with
  | nil =>
    intro line comment
    rfl
  | cons text texts ih =>
    intro line comment
    rw [List.cons_append, commentAfter, ih, commentAfter, List.length_cons]
    congr 1
    omega

/-- A comment that is open at the end was opened on the line it names, and not
closed since. -/
theorem openSince_iff {lines : List (List Char)} {opening : Nat} :
    OpenSince lines opening ↔ commentAfter 0 .closed lines = .opened opening := by
  constructor
  · rintro ⟨hlt, hiff⟩
    have hlast := (hiff (lines.length - 1) (by omega)).mpr (by omega)
    rwa [List.take_of_length_le (by omega)] at hlast
  · intro h
    obtain ⟨-, hlt⟩ := (commentAfter_eq_opened lines 0 .closed h).resolve_left (by simp)
    refine ⟨by omega, fun j hj => ⟨fun hopen => ?_, fun hle => ?_⟩⟩
    · obtain ⟨-, hle⟩ := (commentAfter_eq_opened _ 0 .closed hopen).resolve_left (by simp)
      rw [List.length_take] at hle
      omega
    · -- it was not opened on a line after `j`, so it is open after line `j`
      rw [← List.take_append_drop (j + 1) lines, commentAfter_append] at h
      refine (commentAfter_eq_opened _ _ _ h).resolve_right ?_
      rw [List.length_take]
      omega

theorem Reader.Reads.comment_eq {v : Vocabulary} {lineCount : Nat} {s s' : Reader}
    {texts : List (List Char)} {is : List (Instruction Goto)}
    (h : Reads v lineCount s texts is s') :
    s'.comment = commentAfter s.line s.comment texts := by
  induction h with
  | nil s => rfl
  | cons first _ ih =>
    obtain ⟨-, hline, hcomment⟩ := read_spec first
    rw [ih, commentAfter, hline, hcomment]

/-! ## Declarations -/

/-- The label that a line declares. -/
def labelOf? : List Token → Option String
  | .word name :: .colon :: _ => some name
  | _ => none

/-- The labels that lines declare, in order. -/
def declared (line : Nat) (comment : Comment) (texts : List (List Char)) : List String :=
  (lexLines line comment texts).filterMap (fun (tokens, _) => labelOf? tokens)

/-- A line hands on the labels of the lines before it, and then its own. -/
theorem LineContext.instruction_labels {ctx : LineContext} {labels labels' : Labels}
    {tokens : List Token} {i : Instruction Goto}
    (h : ctx.instruction labels tokens = .ok (i, labels')) :
    labels' = labels ++ (labelOf? tokens).toList.map (·, ctx.line) := by
  unfold LineContext.instruction at h
  dsimp only at h
  split at h
  · split at h
    · obtain ⟨j, -, h⟩ := bind_eq_ok.mp h
      obtain ⟨-, rfl⟩ : j = i ∧ labels = labels' := by simpa [pure, Except.pure] using h
      simp [labelOf?]
    · simp [missing] at h
  · simp [missing] at h
  · next name rest =>
    obtain ⟨declared, hdeclare, h⟩ := bind_eq_ok.mp h
    split at h
    · simp [missing] at h
    · obtain ⟨j, -, h⟩ := bind_eq_ok.mp h
      obtain ⟨-, rfl⟩ : j = i ∧ declared = labels' := by simpa [pure, Except.pure] using h
      simp [(declare_spec hdeclare).2.2, labelOf?]
  · next hlabel =>
    obtain ⟨j, -, h⟩ := bind_eq_ok.mp h
    obtain ⟨-, rfl⟩ : j = i ∧ labels = labels' := by simpa [pure, Except.pure] using h
    have hnone : labelOf? tokens = none := by
      unfold labelOf?
      split
      · exact absurd rfl (hlabel _ _)
      · rfl
    simp [hnone]

theorem LineContext.instruction_names {ctx : LineContext} {labels labels' : Labels}
    {tokens : List Token} {i : Instruction Goto}
    (h : ctx.instruction labels tokens = .ok (i, labels')) :
    labels'.map Prod.fst = labels.map Prod.fst ++ (labelOf? tokens).toList := by
  simp [instruction_labels h, Function.comp_def]

theorem Reader.Reads.names {v : Vocabulary} {lineCount : Nat} {s s' : Reader}
    {texts : List (List Char)} {is : List (Instruction Goto)}
    (h : Reads v lineCount s texts is s') :
    s'.labels.map Prod.fst = s.labels.map Prod.fst ++ declared s.line s.comment texts := by
  induction h with
  | nil s => simp [declared, lexLines]
  | cons first _ ih =>
    obtain ⟨hread, hline, hcomment⟩ := read_spec first
    rw [ih, LineContext.instruction_names hread, hline, hcomment, declared, declared, lexLines,
      List.append_assoc]
    simp only [List.filterMap_cons]
    split
    · next hnone => simp [hnone]
    · next name hsome => simp [hsome]

/-! ## What a whole source leaves -/

namespace Draft

variable {dialect : Dialect} {source : String} {is : List (Instruction Goto)} {s : Reader}

theorem names_of_readsAll (h : ReadsAll dialect source is s) :
    s.labels.map Prod.fst = declared 0 .closed (sourceLines source) :=
  h.names

theorem comment_eq_opened_iff (h : ReadsAll dialect source is s) {opening : Nat} :
    s.comment = .opened opening ↔ OpenSince (sourceLines source) opening := by
  rw [openSince_iff, h.comment_eq]
  rfl

end Draft

end PixelTurtle
