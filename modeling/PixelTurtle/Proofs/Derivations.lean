/-
PixelTurtle.Proofs.Derivations — the line reader accepts its grammar.

* Each reader of a line takes the tokens of a derivation off its words
  (`of_read`), and gives what the derivation means if nothing that follows
  can be taken for a part of it (`read`).
* `LineContext.instruction_eq_ok_iff_line` — a line is read iff its tokens
  derive it, and what is read is what the derivation means.

What follows a part matters by its first word only (`Vocabulary.Resumes`).
-/
import PixelTurtle.Proofs.Grammar
import PixelTurtle.Proofs.Reading

namespace PixelTurtle

/-! ## Words that are read -/

namespace Words

/-- Reading `tokens` leads from `ws` to `left`. -/
def Takes (ws : Words) (tokens : List Token) (left : Words) : Prop :=
  ws.rest = tokens ++ left.rest ∧ left.index = ws.index + tokens.length

variable {ws left : Words} {tokens tokens' : List Token} {word : String}

@[simp] theorem takes_nil : ws.Takes [] left ↔ left = ws := by
  obtain ⟨k, rest⟩ := ws
  obtain ⟨k', rest'⟩ := left
  simp only [Takes, List.nil_append, List.length_nil, Nat.add_zero, mk.injEq]
  exact ⟨fun h => ⟨h.2, h.1.symm⟩, fun h => ⟨h.2.symm, h.1⟩⟩

theorem takes_append :
    ws.Takes (tokens ++ tokens') left ↔ ∃ mid, ws.Takes tokens mid ∧ mid.Takes tokens' left := by
  constructor
  · rintro ⟨hrest, hindex⟩
    refine ⟨⟨ws.index + tokens.length, tokens' ++ left.rest⟩, ⟨?_, rfl⟩, rfl, ?_⟩
    · rw [hrest, List.append_assoc]
    · rw [hindex, List.length_append, Nat.add_assoc]
  · rintro ⟨mid, ⟨hrest, hindex⟩, hrest', hindex'⟩
    refine ⟨?_, ?_⟩
    · rw [hrest, hrest', List.append_assoc]
    · rw [hindex', hindex, List.length_append, Nat.add_assoc]

/-- To take a word is to find it and to read on. The colon has the text
`:` as well, but is no word. -/
theorem takes_cons (hword : word ≠ ":") :
    ws.Takes (.word word :: tokens) left ↔ ws.peek? = some word ∧ ws.skip.Takes tokens left := by
  obtain ⟨k, rest⟩ := ws
  cases rest with
  | nil => simp [Takes, peek?]
  | cons token rest =>
    cases token with
    | colon => simp [Takes, peek?, Token.text, hword.symm]
    | word text => simp [Takes, peek?, Token.text, skip, and_assoc]; omega

theorem takes_word (hword : word ≠ ":") :
    ws.Takes [.word word] left ↔ ws.peek? = some word ∧ left = ws.skip := by
  rw [takes_cons hword, takes_nil]

/-- Nothing was taken iff the position is the same. -/
theorem Takes.index_eq_iff (h : ws.Takes tokens left) : left.index = ws.index ↔ tokens = [] := by
  rw [h.2, ← List.length_eq_zero_iff]
  omega

@[simp] theorem startsWith_iff : ws.startsWith word = true ↔ ws.peek? = some word := by
  simp [startsWith]

end Words

/-! ## Words that follow -/

namespace Vocabulary

/-- Nothing is left, or what is left begins a part of this place or a
later one. -/
def Resumes (v : Vocabulary) (place : Nat) (ws : Words) : Prop :=
  ∀ word, ws.peek? = some word → ∃ n, place ≤ n ∧ v.Begins n word

theorem Resumes.of_rest_eq_nil {v : Vocabulary} {place : Nat} {ws : Words} (h : ws.rest = []) :
    v.Resumes place ws := by
  simp [Resumes, Words.peek?, h]

end Vocabulary

/-! ## Operands -/

namespace LineContext

variable {ctx : LineContext} {ws left : Words}

/-- A word with a meaning is taken iff the next word has it. The colon has
none. -/
theorem takes_operand_iff {α : Type} {meaning? : String → Option α} {a : α}
    (hcolon : meaning? ":" = none) :
    (∃ word, ws.Takes [.word word] left ∧ meaning? word = some a) ↔
      ws.peek?.bind meaning? = some a ∧ left = ws.skip := by
  have hne : ∀ word, meaning? word = some a → word ≠ ":" := by
    rintro word ha rfl
    simp [hcolon] at ha
  constructor
  · rintro ⟨word, htakes, ha⟩
    obtain ⟨hpeek, rfl⟩ := (Words.takes_word (hne word ha)).mp htakes
    exact ⟨by simp [hpeek, ha], rfl⟩
  · rintro ⟨hbind, rfl⟩
    obtain ⟨word, hpeek, ha⟩ := Option.bind_eq_some_iff.mp hbind
    exact ⟨word, (Words.takes_word (hne word ha)).mpr ⟨hpeek, rfl⟩, ha⟩

theorem color_eq_ok_iff (hv : ctx.vocabulary.Unambiguous) {color : Color} :
    ctx.color ws = .ok (color, left) ↔
      ∃ word, ws.Takes [.word word] left ∧ ctx.vocabulary.color? word = some color := by
  rw [takes_operand_iff hv.color, LineContext.color]
  cases ws.peek? with
  | none => simp [missing]
  | some word => cases hword : ctx.vocabulary.color? word <;> simp [hword, objectTo, eq_comm]

theorem condition_eq_ok_iff (hv : ctx.vocabulary.Unambiguous) {condition : Color} :
    ctx.condition ws = .ok (condition, left) ↔
      ∃ word, ws.Takes [.word word] left ∧ ctx.vocabulary.condition? word = some condition := by
  rw [takes_operand_iff hv.condition, LineContext.condition]
  cases ws.peek? with
  | none => simp [missing]
  | some word => cases hword : ctx.vocabulary.condition? word <;> simp [hword, objectTo, eq_comm]

theorem direction_eq_ok_iff (hv : ctx.vocabulary.Unambiguous) {direction : Direction} :
    ctx.direction ws = .ok (direction, left) ↔
      ∃ word, ws.Takes [.word word] left ∧ ctx.vocabulary.direction? word = some direction := by
  rw [takes_operand_iff hv.direction_colon, LineContext.direction]
  cases ws.peek? with
  | none => simp [missing]
  | some word => cases hword : ctx.vocabulary.direction? word <;> simp [hword, objectTo, eq_comm]

theorem label_eq_ok_iff (hv : ctx.vocabulary.Unambiguous) {name : String} :
    ctx.label ws = .ok (name, left) ↔
      ctx.vocabulary.isReserved name = false ∧ ws.Takes [.word name] left := by
  rw [and_congr_right fun hfree => Words.takes_word (hv.ne_colon_of_free hfree),
    LineContext.label]
  cases ws.peek? with
  | none => simp [missing]
  | some word => cases hword : ctx.vocabulary.isReserved word <;> grind [objectTo]

/-- A status is read iff the next word is a number. -/
theorem status_eq_ok_iff {value : Status} :
    status ws = .ok (value, left) ↔
      (ws.peek?.bind Text.int32? = none ∧ value = 0 ∧ left = ws) ∨
      ∃ number, ws.peek?.bind Text.int32? = some number ∧ 0 ≤ number ∧
        value = UInt32.ofNat number.toNat ∧ left = ws.skip := by
  unfold status
  cases ws.peek? with
  | none => simp [eq_comm]
  | some word =>
    cases hword : Text.int32? word with
    | none => simp [hword, eq_comm]
    | some number => by_cases hle : 0 ≤ number <;> simp [hword, hle, objectTo, eq_comm]

end LineContext

/-! ## Parts of an action -/

namespace Grammar

variable {ctx : LineContext} {v : Vocabulary} {ws left : Words} {tokens : List Token}

theorem Write.of_read (hv : ctx.vocabulary.Unambiguous) {write : Option Color}
    (h : ctx.write ws = .ok (write, left)) :
    ∃ tokens, ws.Takes tokens left ∧ Write ctx.vocabulary tokens write := by
  unfold LineContext.write at h
  split at h
  · next hstarts =>
    obtain ⟨⟨color, ws'⟩, hcolor, h⟩ := bind_eq_ok.mp h
    obtain ⟨rfl, rfl⟩ : some color = write ∧ ws' = left := by simpa [pure, Except.pure] using h
    obtain ⟨word, htakes, hword⟩ := (LineContext.color_eq_ok_iff hv).mp hcolor
    exact ⟨_, (Words.takes_cons (by decide)).mpr ⟨Words.startsWith_iff.mp hstarts, htakes⟩,
      .write hword⟩
  · obtain ⟨rfl, rfl⟩ : none = write ∧ ws = left := by simpa using h
    exact ⟨[], Words.takes_nil.mpr rfl, .absent⟩

/-- An absent `write` is not seen in what follows. -/
theorem Write.read (hv : ctx.vocabulary.Unambiguous) {write : Option Color}
    (h : Write ctx.vocabulary tokens write) (htakes : ws.Takes tokens left)
    (hleft : ctx.vocabulary.Resumes 1 left) : ctx.write ws = .ok (write, left) := by
  unfold LineContext.write
  cases h with
  | absent =>
    obtain rfl := Words.takes_nil.mp htakes
    have hstarts : ¬ left.startsWith "write" = true := by
      rw [Words.startsWith_iff]
      intro hpeek
      obtain ⟨n, hn, hword⟩ := hleft _ hpeek
      exact hword.ne_write hv hn rfl
    rw [if_neg hstarts]
  | write hword =>
    obtain ⟨hpeek, htakes⟩ := (Words.takes_cons (by decide)).mp htakes
    rw [if_pos (Words.startsWith_iff.mpr hpeek)]
    exact bind_eq_ok.mpr ⟨_, (LineContext.color_eq_ok_iff hv).mpr ⟨_, htakes, hword⟩, rfl⟩

theorem Move.of_read (hv : ctx.vocabulary.Unambiguous) {direction : Direction}
    (h : ctx.move ws = .ok (direction, left)) :
    ∃ tokens, ws.Takes tokens left ∧ Move ctx.vocabulary tokens direction := by
  unfold LineContext.move at h
  split at h
  · next marker hmove =>
    split at h
    · next hstarts =>
      obtain ⟨word, htakes, hword⟩ := (LineContext.direction_eq_ok_iff hv).mp h
      refine ⟨_, ?_, .marked hmove hword⟩
      exact (Words.takes_cons (hv.ne_colon_of_marker hmove)).mpr
        ⟨Words.startsWith_iff.mp hstarts, htakes⟩
    · obtain ⟨rfl, rfl⟩ : Direction.nowhere = direction ∧ ws = left := by simpa using h
      exact ⟨[], Words.takes_nil.mpr rfl, .absent⟩
  · next hmove =>
    split at h
    · next direction' hpeek =>
      obtain ⟨rfl, hleft⟩ : direction' = direction ∧ ws.skip = left := by simpa using h
      obtain ⟨word, htakes, hword⟩ :=
        (LineContext.takes_operand_iff hv.direction_colon).mpr ⟨hpeek, hleft.symm⟩
      exact ⟨_, htakes, .bare hmove hword⟩
    · obtain ⟨rfl, rfl⟩ : Direction.nowhere = direction ∧ ws = left := by simpa using h
      exact ⟨[], Words.takes_nil.mpr rfl, .absent⟩

/-- An absent move is not seen in what follows. -/
theorem Move.read (hv : ctx.vocabulary.Unambiguous) {direction : Direction}
    (h : Move ctx.vocabulary tokens direction) (htakes : ws.Takes tokens left)
    (hleft : ctx.vocabulary.Resumes 2 left) : ctx.move ws = .ok (direction, left) := by
  unfold LineContext.move
  cases h with
  | absent =>
    obtain rfl := Words.takes_nil.mp htakes
    have hmove : ∀ word, left.peek? = some word → ¬ ctx.vocabulary.BeginsMove word := by
      intro word hpeek
      obtain ⟨n, hn, hword⟩ := hleft word hpeek
      exact hword.not_beginsMove hv hn
    split
    · next marker hmarker =>
      have hstarts : ¬ left.startsWith marker = true := by
        rw [Words.startsWith_iff]
        exact fun hpeek => hmove marker hpeek (.inl hmarker)
      rw [if_neg hstarts]
    · split
      · next hpeek =>
        obtain ⟨word, hpeek, hdirection⟩ := Option.bind_eq_some_iff.mp hpeek
        exact absurd (.inr (by simp [hdirection])) (hmove word hpeek)
      · rfl
  | bare hmove hdirection =>
    obtain ⟨hpeek, rfl⟩ :=
      (LineContext.takes_operand_iff hv.direction_colon).mp ⟨_, htakes, hdirection⟩
    simp only [hmove, hpeek]
  | marked hmove hdirection =>
    obtain ⟨hpeek, htakes⟩ := (Words.takes_cons (hv.ne_colon_of_marker hmove)).mp htakes
    simp only [hmove, Words.startsWith_iff.mpr hpeek, if_true]
    exact (LineContext.direction_eq_ok_iff hv).mpr ⟨_, htakes, hdirection⟩

theorem Jump.of_read (hv : ctx.vocabulary.Unambiguous) {otherwise target : Goto}
    (h : ctx.jump otherwise ws = .ok (target, left)) :
    ∃ tokens, ws.Takes tokens left ∧ Jump ctx otherwise tokens target := by
  unfold LineContext.jump at h
  split at h
  · next hstarts =>
    obtain ⟨rfl, rfl⟩ : Goto.line ctx.line = target ∧ ws.skip = left := by simpa using h
    exact ⟨_, (Words.takes_word (by decide)).mpr ⟨Words.startsWith_iff.mp hstarts, rfl⟩, .again⟩
  · split at h
    · next hstarts =>
      obtain ⟨⟨name, ws'⟩, hlabel, h⟩ := bind_eq_ok.mp h
      obtain ⟨rfl, rfl⟩ : Goto.label name = target ∧ ws' = left := by
        simpa [pure, Except.pure] using h
      obtain ⟨hfree, htakes⟩ := (LineContext.label_eq_ok_iff hv).mp hlabel
      exact ⟨_, (Words.takes_cons (by decide)).mpr ⟨Words.startsWith_iff.mp hstarts, htakes⟩,
        .label hfree⟩
    · split at h
      · next hstarts =>
        obtain ⟨⟨value, ws'⟩, hstatus, h⟩ := bind_eq_ok.mp h
        obtain ⟨rfl, rfl⟩ : Goto.exit value = target ∧ ws' = left := by
          simpa [pure, Except.pure] using h
        have hexit := Words.startsWith_iff.mp hstarts
        rcases LineContext.status_eq_ok_iff.mp hstatus with
          ⟨-, rfl, rfl⟩ | ⟨number, hpeek, hle, rfl, rfl⟩
        · exact ⟨_, (Words.takes_word (by decide)).mpr ⟨hexit, rfl⟩, .exit⟩
        · obtain ⟨word, htakes, hnumber⟩ :=
            (LineContext.takes_operand_iff (by decide)).mpr ⟨hpeek, rfl⟩
          exact ⟨_, (Words.takes_cons (by decide)).mpr ⟨hexit, htakes⟩, .status hnumber hle⟩
      · obtain ⟨rfl, rfl⟩ : otherwise = target ∧ ws = left := by simpa using h
        exact ⟨[], Words.takes_nil.mpr rfl, .absent⟩

/-- An absent jump is not seen in what follows, and neither is the number
of an `exit` that has none. -/
theorem Jump.read (hv : ctx.vocabulary.Unambiguous) {otherwise target : Goto}
    (h : Jump ctx otherwise tokens target) (htakes : ws.Takes tokens left)
    (hleft : ctx.vocabulary.Resumes 3 left) : ctx.jump otherwise ws = .ok (target, left) := by
  have helse : ∀ word, left.peek? = some word → word = "else" := by
    intro word hpeek
    obtain ⟨n, hn, hword⟩ := hleft word hpeek
    exact hword.eq_else hn
  unfold LineContext.jump
  cases h with
  | absent =>
    obtain rfl := Words.takes_nil.mp htakes
    have hstarts : ∀ keyword, keyword ≠ "else" → ¬ left.startsWith keyword = true := by
      intro keyword hne
      rw [Words.startsWith_iff]
      exact fun hpeek => hne (helse keyword hpeek)
    rw [if_neg (hstarts _ (by decide)), if_neg (hstarts _ (by decide)),
      if_neg (hstarts _ (by decide))]
  | again =>
    obtain ⟨hpeek, rfl⟩ := (Words.takes_word (by decide)).mp htakes
    rw [if_pos (Words.startsWith_iff.mpr hpeek)]
  | label hname =>
    obtain ⟨hpeek, htakes⟩ := (Words.takes_cons (by decide)).mp htakes
    have hlabel := (LineContext.label_eq_ok_iff hv).mpr ⟨hname, htakes⟩
    simp [Words.startsWith, hpeek, hlabel, bind, Except.bind, pure, Except.pure]
  | exit =>
    obtain ⟨hpeek, rfl⟩ := (Words.takes_word (by decide)).mp htakes
    have hstatus : LineContext.status ws.skip = .ok (0, ws.skip) := by
      refine LineContext.status_eq_ok_iff.mpr (.inl ⟨?_, rfl, rfl⟩)
      cases hnext : ws.skip.peek? with
      | none => rfl
      | some word =>
        obtain rfl := helse word hnext
        decide
    simp [Words.startsWith, hpeek, hstatus, bind, Except.bind, pure, Except.pure]
  | status hnumber hle =>
    obtain ⟨hpeek, htakes⟩ := (Words.takes_cons (by decide)).mp htakes
    obtain ⟨hnext, rfl⟩ := (LineContext.takes_operand_iff (by decide)).mp ⟨_, htakes, hnumber⟩
    have hstatus := LineContext.status_eq_ok_iff.mpr (.inr ⟨_, hnext, hle, rfl, rfl⟩)
    simp [Words.startsWith, hpeek, hstatus, bind, Except.bind, pure, Except.pure]

/-! ## Actions -/

/-- A part, or what follows where it is absent, begins in its place or
later. -/
theorem resumes_of_takes {place place' : Nat} (htakes : ws.Takes tokens left)
    (hbegins : ∀ token ∈ tokens.head?, v.Begins place token.text)
    (hleft : v.Resumes place' left) (hle : place ≤ place') : v.Resumes place ws := by
  cases tokens with
  | nil =>
    obtain rfl := Words.takes_nil.mp htakes
    intro word hpeek
    obtain ⟨n, hn, hword⟩ := hleft word hpeek
    exact ⟨n, by omega, hword⟩
  | cons token tokens =>
    intro word hpeek
    obtain rfl : token.text = word := by simpa [Words.peek?, htakes.1] using hpeek
    exact ⟨place, Nat.le_refl _, hbegins token rfl⟩

theorem Write.resumes {write : Option Color} (h : Write v tokens write)
    (htakes : ws.Takes tokens left) (hleft : v.Resumes 1 left) : v.Resumes 0 ws := by
  refine resumes_of_takes htakes ?_ hleft (by decide)
  cases h with
  | absent => simp
  | write _ => simpa using .write

theorem Move.resumes {direction : Direction} (h : Move v tokens direction)
    (htakes : ws.Takes tokens left) (hleft : v.Resumes 2 left) : v.Resumes 1 ws := by
  refine resumes_of_takes htakes ?_ hleft (by decide)
  cases h with
  | absent => simp
  | bare _ hdirection => simpa using .move (.inr (by simp [Token.text, hdirection]))
  | marked hmove _ => simpa using .move (.inl hmove)

theorem Jump.resumes {otherwise target : Goto} (h : Jump ctx otherwise tokens target)
    (htakes : ws.Takes tokens left) (hleft : v.Resumes 3 left) : v.Resumes 2 ws := by
  refine resumes_of_takes htakes ?_ hleft (by decide)
  cases h with
  | absent => simp
  | again => simpa using .again
  | label _ => simpa using .label
  | exit | status _ _ => simpa using .exit

theorem Parts.of_read (hv : ctx.vocabulary.Unambiguous) {otherwise : Goto} {a : Action Goto}
    (h : ctx.action otherwise ws = .ok (a, left)) :
    ∃ tokens, ws.Takes tokens left ∧ Parts ctx otherwise tokens a := by
  unfold LineContext.action at h
  obtain ⟨⟨write, ws₁⟩, hwrite, h⟩ := bind_eq_ok.mp h
  obtain ⟨⟨direction, ws₂⟩, hmove, h⟩ := bind_eq_ok.mp h
  obtain ⟨⟨target, ws₃⟩, hjump, h⟩ := bind_eq_ok.mp h
  obtain ⟨rfl, rfl⟩ : (⟨write, direction, target⟩ : Action Goto) = a ∧ ws₃ = left := by
    simpa [pure, Except.pure] using h
  obtain ⟨writeTokens, htakes₁, hwrite⟩ := Write.of_read hv hwrite
  obtain ⟨moveTokens, htakes₂, hmove⟩ := Move.of_read hv hmove
  obtain ⟨jumpTokens, htakes₃, hjump⟩ := Jump.of_read hv hjump
  exact ⟨_, Words.takes_append.mpr ⟨_, htakes₁, Words.takes_append.mpr ⟨_, htakes₂, htakes₃⟩⟩,
    .parts hwrite hmove hjump⟩

theorem Parts.read (hv : ctx.vocabulary.Unambiguous) {otherwise : Goto} {a : Action Goto}
    (h : Parts ctx otherwise tokens a) (htakes : ws.Takes tokens left)
    (hleft : ctx.vocabulary.Resumes 3 left) :
    ctx.vocabulary.Resumes 0 ws ∧ ctx.action otherwise ws = .ok (a, left) := by
  obtain ⟨hwrite, hmove, hjump⟩ := h
  obtain ⟨ws₁, htakes₁, htakes⟩ := Words.takes_append.mp htakes
  obtain ⟨ws₂, htakes₂, htakes₃⟩ := Words.takes_append.mp htakes
  have hleft₂ := hjump.resumes htakes₃ hleft
  have hleft₁ := hmove.resumes htakes₂ hleft₂
  refine ⟨hwrite.resumes htakes₁ hleft₁, ?_⟩
  exact bind_eq_ok.mpr ⟨_, hwrite.read hv htakes₁ hleft₁,
    bind_eq_ok.mpr ⟨_, hmove.read hv htakes₂ hleft₂,
      bind_eq_ok.mpr ⟨_, hjump.read hv htakes₃ hleft, rfl⟩⟩⟩

theorem Act.of_read (hv : ctx.vocabulary.Unambiguous) {keyword : String} {otherwise : Goto}
    {a : Action Goto} (h : ctx.requiredAction keyword otherwise ws = .ok (a, left)) :
    ∃ tokens, ws.Takes tokens left ∧ Act ctx otherwise tokens a := by
  unfold LineContext.requiredAction at h
  split at h
  · simp [LineContext.missing] at h
  · obtain ⟨⟨a', ws'⟩, haction, h⟩ := bind_eq_ok.mp h
    dsimp only at h
    split at h
    · simp [LineContext.objectTo] at h
    · next hne =>
      obtain ⟨rfl, rfl⟩ : a' = a ∧ ws' = left := by simpa [pure, Except.pure] using h
      obtain ⟨tokens, htakes, hparts⟩ := Parts.of_read hv haction
      exact ⟨tokens, htakes, hparts, fun htokens => hne (htakes.index_eq_iff.mpr htokens)⟩

theorem Act.read (hv : ctx.vocabulary.Unambiguous) (keyword : String) {otherwise : Goto}
    {a : Action Goto} (h : Act ctx otherwise tokens a) (htakes : ws.Takes tokens left)
    (hleft : ctx.vocabulary.Resumes 3 left) :
    ctx.requiredAction keyword otherwise ws = .ok (a, left) := by
  have hend : ¬ ws.atEnd = true := by simp [Words.atEnd, htakes.1, h.ne_nil]
  have hne : left.index ≠ ws.index := fun heq => h.ne_nil (htakes.index_eq_iff.mp heq)
  rw [LineContext.requiredAction, if_neg hend]
  exact bind_eq_ok.mpr ⟨_, (h.parts.read hv htakes hleft).2, if_neg hne⟩

/-! ## Instructions -/

theorem Alternative.of_read (hv : ctx.vocabulary.Unambiguous) {a : Action Goto}
    (h : ctx.alternative ws = .ok (a, left)) :
    ∃ tokens, ws.Takes tokens left ∧ Alternative ctx tokens a := by
  unfold LineContext.alternative at h
  split at h
  · next hstarts =>
    obtain ⟨tokens, htakes, haction⟩ := Act.of_read hv h
    exact ⟨_, (Words.takes_cons (by decide)).mpr ⟨Words.startsWith_iff.mp hstarts, htakes⟩,
      .present haction⟩
  · obtain ⟨rfl, rfl⟩ : Action.goOn ctx.nextLine = a ∧ ws = left := by simpa using h
    exact ⟨[], Words.takes_nil.mpr rfl, .absent⟩

theorem Alternative.read (hv : ctx.vocabulary.Unambiguous) {a : Action Goto}
    (h : Alternative ctx tokens a) (htakes : ws.Takes tokens left) (hend : left.rest = []) :
    ctx.vocabulary.Resumes 3 ws ∧ ctx.alternative ws = .ok (a, left) := by
  have hleft : ctx.vocabulary.Resumes 3 left := .of_rest_eq_nil hend
  unfold LineContext.alternative
  cases h with
  | absent =>
    obtain rfl := Words.takes_nil.mp htakes
    exact ⟨hleft, by simp [Words.startsWith, Words.peek?, hend]⟩
  | present haction =>
    obtain ⟨hpeek, htakes⟩ := (Words.takes_cons (by decide)).mp htakes
    refine ⟨fun word hword => ?_, ?_⟩
    · obtain rfl : "else" = word := Option.some.inj (hpeek.symm.trans hword)
      exact ⟨3, Nat.le_refl _, .alternative⟩
    · rw [if_pos (Words.startsWith_iff.mpr hpeek)]
      exact haction.read hv "else" htakes hleft

/-- A conditional after its keyword. -/
theorem Body.of_conditional (hv : ctx.vocabulary.Unambiguous) {keyword : String} {otherwise : Goto}
    {i : Instruction Goto} (hopening : Opening ctx keyword otherwise)
    (hpeek : ws.peek? = some keyword)
    (h : ctx.conditional keyword otherwise ws.skip = .ok (i, left)) :
    ∃ tokens, ws.Takes tokens left ∧ Body ctx tokens i := by
  unfold LineContext.conditional at h
  obtain ⟨⟨condition, ws₁⟩, hcondition, h⟩ := bind_eq_ok.mp h
  obtain ⟨⟨consequent, ws₂⟩, hconsequent, h⟩ := bind_eq_ok.mp h
  obtain ⟨⟨alternative, ws₃⟩, halternative, h⟩ := bind_eq_ok.mp h
  obtain ⟨rfl, rfl⟩ : branching condition consequent alternative = i ∧ ws₃ = left := by
    rw [branching_eq]
    dsimp only at h
    split at h <;> simpa [*, pure, Except.pure] using h
  obtain ⟨word, htakes₁, hword⟩ := (LineContext.condition_eq_ok_iff hv).mp hcondition
  obtain ⟨tokens, htakes₂, hconsequent⟩ := Act.of_read hv hconsequent
  obtain ⟨tokens', htakes₃, halternative⟩ := Alternative.of_read hv halternative
  refine ⟨_, ?_, .conditional hopening hword hconsequent halternative⟩
  refine (Words.takes_cons hopening.ne_colon).mpr ⟨hpeek, ?_⟩
  exact Words.takes_append.mpr ⟨_, htakes₁, Words.takes_append.mpr ⟨_, htakes₂, htakes₃⟩⟩

/-- An action for every pixel, or a line that has none. -/
theorem Body.of_unconditional (hv : ctx.vocabulary.Unambiguous) {i : Instruction Goto}
    (h : ctx.unconditional ws = .ok (i, left)) :
    ∃ tokens, ws.Takes tokens left ∧
      (Body ctx tokens i ∨ (tokens = [] ∧ i = placeholder ctx)) := by
  unfold LineContext.unconditional at h
  obtain ⟨⟨a, ws'⟩, haction, h⟩ := bind_eq_ok.mp h
  obtain ⟨hi, rfl⟩ : _ = i ∧ ws' = left := by simpa [pure, Except.pure] using h
  obtain ⟨tokens, htakes, hparts⟩ := Parts.of_read hv haction
  refine ⟨tokens, htakes, ?_⟩
  by_cases hnil : tokens = []
  · subst hnil
    obtain rfl := hparts.eq_goOn
    rw [if_pos (htakes.index_eq_iff.mpr rfl)] at hi
    exact .inr ⟨rfl, hi.symm⟩
  · rw [if_neg (mt htakes.index_eq_iff.mp hnil)] at hi
    exact .inl (hi ▸ .action ⟨hparts, hnil⟩)

/-- What is read up to the end of the line is a body, if it is not empty
or may be. -/
theorem Body.of_read (hv : ctx.vocabulary.Unambiguous) {i : Instruction Goto}
    (h : ctx.body ws = .ok (i, left)) (hend : left.rest = [])
    (hempty : ws.rest = [] → ctx.vocabulary.allowsPlaceholders = true) : Body ctx ws.rest i := by
  have hrest : ∀ {tokens}, ws.Takes tokens left → ws.rest = tokens := by
    intro tokens htakes
    rw [htakes.1, hend, List.append_nil]
  unfold LineContext.body at h
  split at h
  · next hstarts =>
    obtain ⟨tokens, htakes, hbody⟩ :=
      Body.of_conditional hv .branch (Words.startsWith_iff.mp hstarts) h
    rwa [hrest htakes]
  · split at h
    · next hstarts =>
      obtain ⟨hloops, hstarts⟩ := Bool.and_eq_true_iff.mp hstarts
      obtain ⟨tokens, htakes, hbody⟩ :=
        Body.of_conditional hv (.loop hloops) (Words.startsWith_iff.mp hstarts) h
      rwa [hrest htakes]
    · obtain ⟨tokens, htakes, hbody | ⟨rfl, rfl⟩⟩ := Body.of_unconditional hv h
      · rwa [hrest htakes]
      · rw [hrest htakes]
        exact .empty (hempty (hrest htakes))

/-- A conditional after its keyword is read to the end of the line. -/
theorem Body.read_conditional (hv : ctx.vocabulary.Unambiguous) (keyword : String)
    {word : String} {otherwise : Goto} {condition : Color} {tokens tokens' : List Token}
    {consequent alternative : Action Goto}
    (hcondition : ctx.vocabulary.condition? word = some condition)
    (hconsequent : Act ctx otherwise tokens consequent)
    (halternative : Alternative ctx tokens' alternative)
    (htakes : ws.Takes (.word word :: (tokens ++ tokens')) left) (hend : left.rest = []) :
    ctx.conditional keyword otherwise ws =
      .ok (branching condition consequent alternative, left) := by
  obtain ⟨ws₁, htakes₁, htakes⟩ :=
    Words.takes_append.mp (show ws.Takes ([.word word] ++ (tokens ++ tokens')) left from htakes)
  obtain ⟨ws₂, htakes₂, htakes₃⟩ := Words.takes_append.mp htakes
  have hcondition := (LineContext.condition_eq_ok_iff hv).mpr ⟨word, htakes₁, hcondition⟩
  obtain ⟨hresumes, halternative⟩ := halternative.read hv htakes₃ hend
  have hconsequent := hconsequent.read hv keyword htakes₂ hresumes
  refine bind_eq_ok.mpr ⟨_, hcondition, bind_eq_ok.mpr ⟨_, hconsequent,
    bind_eq_ok.mpr ⟨_, halternative, ?_⟩⟩⟩
  rw [branching_eq]
  dsimp only
  split <;> rfl

/-- What may begin an action is no conditional. -/
theorem body_eq_unconditional (hv : ctx.vocabulary.Unambiguous)
    (hws : ctx.vocabulary.Resumes 0 ws) : ctx.body ws = ctx.unconditional ws := by
  have hne : ∀ keyword, keyword = "if" ∨ keyword = "while" → ¬ ws.startsWith keyword = true := by
    intro keyword hkeyword
    rw [Words.startsWith_iff]
    intro hpeek
    obtain ⟨n, -, hword⟩ := hws keyword hpeek
    obtain ⟨hif, hwhile⟩ := hword.ne_conditional hv
    exact hkeyword.elim hif hwhile
  have hwhile : ¬ (ctx.vocabulary.hasLoops && ws.startsWith "while") = true := by
    rw [Bool.and_eq_true]
    exact fun h => hne "while" (.inr rfl) h.2
  rw [LineContext.body, if_neg (hne "if" (.inl rfl)), if_neg hwhile]

theorem Body.read_unconditional (hv : ctx.vocabulary.Unambiguous) {a : Action Goto}
    (h : Parts ctx ctx.nextLine tokens a) (htakes : ws.Takes tokens left) (hend : left.rest = []) :
    ctx.body ws =
      .ok (⟨a, a, if tokens = [] then .placeholder else .unconditional⟩, left) := by
  have hleft : ctx.vocabulary.Resumes 3 left := .of_rest_eq_nil hend
  obtain ⟨hws, haction⟩ := h.read hv htakes hleft
  rw [body_eq_unconditional hv hws]
  refine bind_eq_ok.mpr ⟨_, haction, ?_⟩
  simp only [htakes.index_eq_iff]
  rfl

theorem Body.read (hv : ctx.vocabulary.Unambiguous) {i : Instruction Goto}
    (h : Body ctx tokens i) (htakes : ws.Takes tokens left) (hend : left.rest = []) :
    ctx.body ws = .ok (i, left) := by
  cases h with
  | empty hallows => exact Body.read_unconditional hv (.parts .absent .absent .absent) htakes hend
  | action haction =>
    rw [Body.read_unconditional hv haction.parts htakes hend, if_neg haction.ne_nil]
  | conditional hopening hcondition hconsequent halternative =>
    obtain ⟨hpeek, htakes⟩ := (Words.takes_cons hopening.ne_colon).mp htakes
    have hread := fun keyword =>
      Body.read_conditional hv keyword hcondition hconsequent halternative htakes hend
    cases hopening with
    | branch =>
      rw [LineContext.body, if_pos (Words.startsWith_iff.mpr hpeek)]
      exact hread _
    | loop hloops =>
      have hif : ¬ ws.startsWith "if" = true := by simp [Words.startsWith, hpeek]
      have hwhile : (ctx.vocabulary.hasLoops && ws.startsWith "while") = true := by
        rw [hloops, Words.startsWith_iff.mpr hpeek, Bool.and_self]
      rw [LineContext.body, if_neg hif, if_pos hwhile]
      exact hread _

end Grammar

/-! ## Lines -/

namespace LineContext

open Grammar

variable {ctx : LineContext} {ws : Words} {labels labels' : Labels} {tokens : List Token}
  {i : Instruction Goto}

/-- All that is left is read as a body, if it is not empty or may be. -/
theorem wholeBody_eq_ok_iff (hv : ctx.vocabulary.Unambiguous)
    (hempty : ws.rest = [] → ctx.vocabulary.allowsPlaceholders = true) :
    ctx.wholeBody ws = .ok i ↔ Body ctx ws.rest i := by
  unfold wholeBody
  constructor
  · intro h
    obtain ⟨⟨j, left⟩, hbody, h⟩ := bind_eq_ok.mp h
    dsimp only at h
    split at h
    · next hpeek =>
      obtain rfl : j = i := by simpa [pure, Except.pure] using h
      exact Body.of_read hv hbody (by simpa [Words.peek?] using hpeek) hempty
    · split at h <;> simp [objectTo] at h
  · intro h
    have htakes : ws.Takes ws.rest ⟨ws.index + ws.rest.length, []⟩ := ⟨by simp, rfl⟩
    exact bind_eq_ok.mpr ⟨_, h.read hv htakes rfl, rfl⟩

/-- The labels do not depend on the body. -/
theorem wholeBody_bind_eq_ok_iff (hv : ctx.vocabulary.Unambiguous)
    (hempty : ws.rest = [] → ctx.vocabulary.allowsPlaceholders = true) :
    (do let i ← ctx.wholeBody ws; return (i, labels)) = Except.ok (i, labels') ↔
      Body ctx ws.rest i ∧ labels' = labels := by
  rw [bind_eq_ok, ← wholeBody_eq_ok_iff hv hempty]
  constructor
  · rintro ⟨j, hbody, h⟩
    obtain ⟨rfl, rfl⟩ : j = i ∧ labels = labels' := by simpa [pure, Except.pure] using h
    exact ⟨hbody, rfl⟩
  · rintro ⟨hbody, rfl⟩
    exact ⟨i, hbody, rfl⟩

theorem declare_eq_ok_iff (ws : Words) {name : String} :
    ctx.declare labels name ws = .ok labels' ↔
      ctx.vocabulary.isReserved name = false ∧ name ∉ labels.map Prod.fst ∧
        labels' = labels ++ [(name, ctx.line)] := by
  rw [← Labels.lookup_eq_none_iff]
  constructor
  · exact declare_spec
  · rintro ⟨hname, hnew, rfl⟩
    simp [declare, hname, hnew]

theorem instruction_eq_ok_iff (hv : ctx.vocabulary.Unambiguous) :
    ctx.instruction labels tokens = .ok (i, labels') ↔ Line ctx labels tokens i labels' := by
  unfold LineContext.instruction
  dsimp only
  split
  · -- no words at all
    rw [line_iff (by simp)]
    split
    · next hallows => exact wholeBody_bind_eq_ok_iff hv fun _ => hallows
    · next hallows =>
      exact ⟨fun h => by simp [missing] at h, fun h => absurd h.1.allowsPlaceholders hallows⟩
  · -- a colon without a label
    rw [line_iff (by simp)]
    exact ⟨fun h => by simp [missing] at h, fun h => by simpa using h.1.colon_not_mem⟩
  · -- a label
    next name rest =>
    rw [line_label_iff, ← declare_eq_ok_iff (.ofTokens (.word name :: .colon :: rest))]
    have hallows : ¬ (rest.isEmpty && !ctx.vocabulary.allowsPlaceholders) = true ↔
        (rest = [] → ctx.vocabulary.allowsPlaceholders = true) := by simp
    constructor
    · intro h
      obtain ⟨declared, hdeclare, h⟩ := bind_eq_ok.mp h
      split at h
      · simp [missing] at h
      · next hrest =>
        obtain ⟨hbody, rfl⟩ := (wholeBody_bind_eq_ok_iff hv (hallows.mp hrest)).mp h
        exact ⟨hdeclare, hbody⟩
    · rintro ⟨hdeclare, hbody⟩
      have hrest : rest = [] → ctx.vocabulary.allowsPlaceholders = true := by
        rintro rfl
        exact hbody.allowsPlaceholders
      refine bind_eq_ok.mpr ⟨labels', hdeclare, ?_⟩
      rw [if_neg (hallows.mpr hrest)]
      exact (wholeBody_bind_eq_ok_iff hv hrest).mpr ⟨hbody, rfl⟩
  · -- words without a label
    next hne _ hlabel =>
    rw [line_iff hlabel]
    exact wholeBody_bind_eq_ok_iff hv fun hnil => absurd hnil hne

/-- In both dialects a line is read iff its tokens derive it, and what is
read is what the derivation builds. -/
theorem instruction_eq_ok_iff_line (dialect : Dialect) (line lineCount : Nat)
    (labels labels' : Labels) (tokens : List Token) (i : Instruction Goto) :
    instruction ⟨dialect.vocabulary, line, lineCount⟩ labels tokens = .ok (i, labels') ↔
      Line ⟨dialect.vocabulary, line, lineCount⟩ labels tokens i labels' :=
  instruction_eq_ok_iff dialect.unambiguous

/-- The number of an `exit` is not looked for behind `else`, and `while`
comes back to its own line. -/
example :
    instruction ⟨.palette, 1, 3⟩ []
      [.word "a", .colon, .word "while", .word "color", .word "up", .word "else", .word "exit"] =
      .ok (⟨⟨none, .nowhere, .exit 0⟩, ⟨none, .up, .line 1⟩, .conditional⟩, [("a", 1)]) := by
  rfl

end LineContext

end PixelTurtle
