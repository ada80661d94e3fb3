/-
PixelTurtle.Proofs.Reading — what is known of a source that was read.

Each reader of a line either leaves its words alone and gives its default,
or reads at least one word. From that, by the readers' own structure:

* `LineContext.instruction_spec` — jumps of a line stay within the source,
  exit statuses are those of signed 32 bit numbers, a placeholder only goes
  on to the next line, and a label that is declared is new.
* `Draft.ofSource_spec` — the same of a whole source, with one instruction
  for each line.
-/
import PixelTurtle.Draft
import Mathlib.Data.List.Nodup

namespace PixelTurtle

/-- What succeeds in two steps succeeded in the first and then in the
second. -/
theorem bind_eq_ok {ε α β : Type} {first : Except ε α} {second : α → Except ε β} {result : β} :
    first >>= second = .ok result ↔ ∃ a, first = .ok a ∧ second a = .ok result := by
  rcases first with fault | a
  · simp [bind, Except.bind]
  · exact ⟨fun h => ⟨a, rfl, h⟩, fun ⟨_, ha, h⟩ => Except.ok.inj ha ▸ h⟩

/-- What fails in two steps failed in the first, or in the second alone. -/
theorem bind_eq_error {ε α β : Type} {first : Except ε α} {second : α → Except ε β} {fault : ε} :
    first >>= second = .error fault ↔
      first = .error fault ∨ ∃ a, first = .ok a ∧ second a = .error fault := by
  rcases first with fault' | a
  · simp [bind, Except.bind]
  · simp [bind, Except.bind]

/-! ## Numbers -/

namespace Text

theorem readDigits_le {limit : Nat} {past : NumeralFault} :
    ∀ (text : List Char) {value n : Nat}, value ≤ limit →
      readDigits limit past value text = .ok n → n ≤ limit
  | [], value, n, hvalue, h => by
      obtain rfl : value = n := by simpa [readDigits] using h
      exact hvalue
  | c :: rest, value, n, _, h => by
      rw [readDigits] at h
      split at h
      · simp at h
      · split at h
        · next hle => exact readDigits_le rest hle h
        · simp at h

theorem readNat_le {limit : Nat} {text : List Char} {n : Nat} (h : readNat limit text = .ok n) :
    n ≤ limit := by
  unfold readNat at h
  split at h
  · simp at h
  · simp at h
  · exact readDigits_le _ (Nat.zero_le _) h
  · exact readDigits_le _ (Nat.zero_le _) h

theorem readInt_le {limit : Nat} {text : List Char} {n : Int} (h : readInt limit text = .ok n) :
    n ≤ limit := by
  unfold readInt at h
  split at h
  · simp at h
  · next rest _ =>
    cases hr : readDigits (limit + 1) .tooSmall 0 rest with
    | error fault => simp [hr, Except.map, Functor.map] at h
    | ok m =>
      obtain rfl : -(m : Int) = n := by simpa [hr, Except.map, Functor.map] using h
      omega
  · cases hr : readNat limit text with
    | error fault => simp [hr, Except.map, Functor.map] at h
    | ok m =>
      obtain rfl : (m : Int) = n := by simpa [hr, Except.map, Functor.map] using h
      have hle := readNat_le hr
      omega

/-- A number of 32 bits is below 2^31. -/
theorem int32?_le {word : String} {n : Int} (h : int32? word = some n) : n ≤ 0x7fffffff := by
  unfold int32? at h
  cases hr : readInt 0x7fffffff word.toList with
  | error fault =>
    rw [hr] at h
    simp [Except.toOption] at h
  | ok m =>
    rw [hr] at h
    obtain rfl : m = n := by simpa [Except.toOption] using h
    have hle := readInt_le hr
    omega

end Text

/-! ## Readers of a line -/

/-- The largest status a source can spell. -/
def maxStatus : Nat := 0x7fffffff

/-- A jump that stays within the lines of the source, or a status that a
source can spell. -/
def Goto.Fits (lineCount : Nat) : Goto → Prop
  | .line next => next < lineCount
  | .label _ => True
  | .exit status => status.toNat ≤ maxStatus

/-- Words were read, or none was and the default was given. -/
def Words.Reads (ws left : Words) (default : Prop) : Prop :=
  (left = ws ∧ default) ∨ ws.index < left.index

namespace Words.Reads

variable {ws ws' ws'' : Words} {p q : Prop}

theorem default_of_index_eq (h : Reads ws ws' p) (heq : ws'.index = ws.index) : ws' = ws ∧ p := by
  rcases h with h | hlt
  · exact h
  · omega

theorem index_le (h : Reads ws ws' p) : ws.index ≤ ws'.index := by
  rcases h with ⟨rfl, _⟩ | hlt
  · exact Nat.le_refl _
  · omega

theorem trans (h : Reads ws ws' p) (h' : Reads ws' ws'' q) : Reads ws ws'' (p ∧ q) := by
  have hle := h'.index_le
  rcases h with ⟨rfl, hp⟩ | hlt
  · exact h'.imp (fun hq => ⟨hq.1, hp, hq.2⟩) id
  · exact .inr (by omega)

theorem imp (h : Reads ws ws' p) (hpq : p → q) : Reads ws ws' q :=
  Or.imp (fun hp => ⟨hp.1, hpq hp.2⟩) id h

end Words.Reads

namespace LineContext

variable {ctx : LineContext} {ws left : Words}

theorem index_lt_skip (ws : Words) : ws.index < ws.skip.index := by
  simp [Words.skip]

theorem fits_nextLine (ctx : LineContext) : ctx.nextLine.Fits ctx.lineCount := by
  unfold nextLine
  split
  · next h => exact h
  · simp [Goto.Fits]

/-- Every reader of an operand reads one word. -/
theorem color_index {color : Color} (h : ctx.color ws = .ok (color, left)) : left = ws.skip := by
  unfold LineContext.color at h
  split at h
  · simp [missing] at h
  · split at h
    · simpa using (congrArg Prod.snd (Except.ok.inj h)).symm
    · simp [objectTo] at h

theorem direction_index {direction : Direction} (h : ctx.direction ws = .ok (direction, left)) :
    left = ws.skip := by
  unfold LineContext.direction at h
  split at h
  · simp [missing] at h
  · split at h
    · simpa using (congrArg Prod.snd (Except.ok.inj h)).symm
    · simp [objectTo] at h

theorem label_index {name : String} (h : ctx.label ws = .ok (name, left)) : left = ws.skip := by
  unfold label at h
  split at h
  · simp [missing] at h
  · split at h
    · simp [objectTo] at h
    · simpa using (congrArg Prod.snd (Except.ok.inj h)).symm

/-- A status is below 2^31. -/
theorem status_spec {value : Status} (h : status ws = .ok (value, left)) :
    value.toNat ≤ maxStatus ∧ ws.index ≤ left.index := by
  unfold status at h
  split at h
  · obtain ⟨rfl, rfl⟩ : 0 = value ∧ ws = left := by simpa using h
    simp
  · split at h
    · obtain ⟨rfl, rfl⟩ : 0 = value ∧ ws = left := by simpa using h
      simp
    · next number hnumber =>
      split at h
      · obtain ⟨rfl, rfl⟩ : UInt32.ofNat number.toNat = value ∧ ws.skip = left := by simpa using h
        have hle := Text.int32?_le hnumber
        refine ⟨?_, Nat.le_of_lt (index_lt_skip ws)⟩
        rw [UInt32.toNat_ofNat_of_lt' (by simp [UInt32.size]; omega), maxStatus]
        omega
      · simp [objectTo] at h

theorem write_spec {color : Option Color} (h : ctx.write ws = .ok (color, left)) :
    ws.Reads left (color = none) := by
  unfold LineContext.write at h
  split at h
  · obtain ⟨⟨c, ws'⟩, hcolor, h⟩ := bind_eq_ok.mp h
    obtain ⟨-, rfl⟩ : some c = color ∧ ws' = left := by simpa [pure, Except.pure] using h
    right
    rw [color_index hcolor]
    exact Nat.lt_trans (index_lt_skip ws) (index_lt_skip _)
  · obtain ⟨rfl, rfl⟩ : none = color ∧ ws = left := by simpa using h
    exact .inl ⟨rfl, rfl⟩

theorem move_spec {direction : Direction} (h : ctx.move ws = .ok (direction, left)) :
    ws.Reads left (direction = .nowhere) := by
  unfold move at h
  split at h
  · split at h
    · right
      rw [direction_index h]
      exact Nat.lt_trans (index_lt_skip ws) (index_lt_skip _)
    · obtain ⟨rfl, rfl⟩ : Direction.nowhere = direction ∧ ws = left := by simpa using h
      exact .inl ⟨rfl, rfl⟩
  · split at h
    · obtain ⟨-, rfl⟩ : _ = direction ∧ ws.skip = left := by simpa using h
      exact .inr (index_lt_skip ws)
    · obtain ⟨rfl, rfl⟩ : Direction.nowhere = direction ∧ ws = left := by simpa using h
      exact .inl ⟨rfl, rfl⟩

theorem jump_spec {otherwise goto : Goto} (hline : ctx.line < ctx.lineCount)
    (hotherwise : otherwise.Fits ctx.lineCount) (h : ctx.jump otherwise ws = .ok (goto, left)) :
    goto.Fits ctx.lineCount ∧ ws.Reads left (goto = otherwise) := by
  unfold jump at h
  split at h
  · obtain ⟨rfl, rfl⟩ : Goto.line ctx.line = goto ∧ ws.skip = left := by simpa using h
    exact ⟨hline, .inr (index_lt_skip ws)⟩
  · split at h
    · obtain ⟨⟨name, ws'⟩, hlabel, h⟩ := bind_eq_ok.mp h
      obtain ⟨rfl, rfl⟩ : Goto.label name = goto ∧ ws' = left := by
        simpa [pure, Except.pure] using h
      refine ⟨trivial, .inr ?_⟩
      rw [label_index hlabel]
      exact Nat.lt_trans (index_lt_skip ws) (index_lt_skip _)
    · split at h
      · obtain ⟨⟨value, ws'⟩, hstatus, h⟩ := bind_eq_ok.mp h
        obtain ⟨rfl, rfl⟩ : Goto.exit value = goto ∧ ws' = left := by
          simpa [pure, Except.pure] using h
        obtain ⟨hfits, hle⟩ := status_spec hstatus
        exact ⟨hfits, .inr (Nat.lt_of_lt_of_le (index_lt_skip ws) hle)⟩
      · obtain ⟨rfl, rfl⟩ : otherwise = goto ∧ ws = left := by simpa using h
        exact ⟨hotherwise, .inl ⟨rfl, rfl⟩⟩

theorem action_spec {otherwise : Goto} {a : Action Goto} (hline : ctx.line < ctx.lineCount)
    (hotherwise : otherwise.Fits ctx.lineCount) (h : ctx.action otherwise ws = .ok (a, left)) :
    a.target.Fits ctx.lineCount ∧ ws.Reads left (a = .goOn otherwise) := by
  unfold LineContext.action at h
  obtain ⟨⟨write, ws₁⟩, hwrite, h⟩ := bind_eq_ok.mp h
  obtain ⟨⟨direction, ws₂⟩, hmove, h⟩ := bind_eq_ok.mp h
  obtain ⟨⟨target, ws₃⟩, hjump, h⟩ := bind_eq_ok.mp h
  obtain ⟨rfl, rfl⟩ : (⟨write, direction, target⟩ : Action Goto) = a ∧ ws₃ = left := by
    simpa [pure, Except.pure] using h
  obtain ⟨hfits, hreads⟩ := jump_spec hline hotherwise hjump
  refine ⟨hfits, (((write_spec hwrite).trans (move_spec hmove)).trans hreads).imp ?_⟩
  rintro ⟨⟨rfl, rfl⟩, rfl⟩
  rfl

theorem action_of_requiredAction {keyword : String} {otherwise : Goto} {a : Action Goto}
    (h : ctx.requiredAction keyword otherwise ws = .ok (a, left)) :
    ctx.action otherwise ws = .ok (a, left) := by
  unfold requiredAction at h
  split at h
  · simp [missing] at h
  · obtain ⟨⟨a', ws'⟩, haction, h⟩ := bind_eq_ok.mp h
    dsimp only at h
    split at h
    · simp [objectTo] at h
    · obtain ⟨rfl, rfl⟩ : a' = a ∧ ws' = left := by simpa [pure, Except.pure] using h
      exact haction

theorem requiredAction_fits {keyword : String} {otherwise : Goto} {a : Action Goto}
    (hline : ctx.line < ctx.lineCount) (hotherwise : otherwise.Fits ctx.lineCount)
    (h : ctx.requiredAction keyword otherwise ws = .ok (a, left)) :
    a.target.Fits ctx.lineCount :=
  (action_spec hline hotherwise (action_of_requiredAction h)).1

theorem alternative_fits {a : Action Goto} (hline : ctx.line < ctx.lineCount)
    (h : ctx.alternative ws = .ok (a, left)) : a.target.Fits ctx.lineCount := by
  unfold alternative at h
  split at h
  · exact requiredAction_fits hline ctx.fits_nextLine h
  · obtain ⟨rfl, -⟩ : Action.goOn ctx.nextLine = a ∧ ws = left := by simpa using h
    exact ctx.fits_nextLine

/-- What is known of an instruction read on a line. -/
structure Reads (ctx : LineContext) (i : Instruction Goto) : Prop where
  fits : ∀ slot, (i.action slot).target.Fits ctx.lineCount
  placeholder : i.kind = .placeholder → ∀ slot, i.action slot = .goOn ctx.nextLine

theorem conditional_spec {keyword : String} {otherwise : Goto} {i : Instruction Goto}
    (hline : ctx.line < ctx.lineCount) (hotherwise : otherwise.Fits ctx.lineCount)
    (h : ctx.conditional keyword otherwise ws = .ok (i, left)) :
    ctx.Reads i ∧ i.kind ≠ .placeholder := by
  unfold conditional at h
  obtain ⟨⟨condition, ws₁⟩, -, h⟩ := bind_eq_ok.mp h
  obtain ⟨⟨consequent, ws₂⟩, hconsequent, h⟩ := bind_eq_ok.mp h
  obtain ⟨⟨alternative, ws₃⟩, halternative, h⟩ := bind_eq_ok.mp h
  have hc := requiredAction_fits hline hotherwise hconsequent
  have ha := alternative_fits hline halternative
  dsimp only at h
  split at h
  all_goals
    obtain ⟨rfl, -⟩ : _ = i ∧ ws₃ = left := by simpa [pure, Except.pure] using h
    refine ⟨⟨fun slot => ?_, by simp⟩, by simp⟩
    cases slot <;> assumption

theorem unconditional_spec {i : Instruction Goto} (hline : ctx.line < ctx.lineCount)
    (h : ctx.unconditional ws = .ok (i, left)) :
    ctx.Reads i ∧ (i.kind = .placeholder → left = ws) := by
  unfold unconditional at h
  obtain ⟨⟨a, ws'⟩, haction, h⟩ := bind_eq_ok.mp h
  obtain ⟨rfl, rfl⟩ : _ = i ∧ ws' = left := by simpa [pure, Except.pure] using h
  obtain ⟨hfits, hreads⟩ := action_spec hline ctx.fits_nextLine haction
  refine ⟨⟨fun slot => by cases slot <;> exact hfits, fun hkind slot => ?_⟩, fun hkind => ?_⟩
  · have hindex : ws'.index = ws.index := by simpa using hkind
    have hdefault := (hreads.default_of_index_eq hindex).2
    cases slot <;> exact hdefault
  · have hindex : ws'.index = ws.index := by simpa using hkind
    exact (hreads.default_of_index_eq hindex).1

theorem body_spec {i : Instruction Goto} (hline : ctx.line < ctx.lineCount)
    (h : ctx.body ws = .ok (i, left)) :
    ctx.Reads i ∧ (i.kind = .placeholder → left = ws) := by
  unfold body at h
  split at h
  · have hspec := conditional_spec hline ctx.fits_nextLine h
    exact ⟨hspec.1, fun hkind => absurd hkind hspec.2⟩
  · split at h
    · have hself : (Goto.line ctx.line).Fits ctx.lineCount := hline
      have hspec := conditional_spec hline hself h
      exact ⟨hspec.1, fun hkind => absurd hkind hspec.2⟩
    · exact unconditional_spec hline h

/-- A placeholder is read from no words. -/
theorem wholeBody_spec {i : Instruction Goto} (hline : ctx.line < ctx.lineCount)
    (h : ctx.wholeBody ws = .ok i) :
    ctx.Reads i ∧ (i.kind = .placeholder → ws.rest = []) := by
  unfold wholeBody at h
  obtain ⟨⟨j, left⟩, hbody, h⟩ := bind_eq_ok.mp h
  dsimp only at h
  split at h
  · next hpeek =>
    obtain rfl : j = i := by simpa [pure, Except.pure] using h
    obtain ⟨hreads, hkind⟩ := body_spec hline hbody
    refine ⟨hreads, fun hp => ?_⟩
    rw [← hkind hp]
    simpa [Words.peek?] using hpeek
  · split at h <;> simp [objectTo] at h

end LineContext

/-! ## Labels -/

/-- Labels with different names that are not reserved, on different lines
below a bound. -/
structure Labels.Fit (v : Vocabulary) (bound : Nat) (labels : Labels) : Prop where
  lines : ∀ entry ∈ labels, entry.2 < bound
  names : ∀ entry ∈ labels, v.isReserved entry.1 = false
  nodup_lines : (labels.map Prod.snd).Nodup
  nodup_names : (labels.map Prod.fst).Nodup

namespace Labels

variable {v : Vocabulary} {labels : Labels} {line : Nat}

theorem lookup_eq_none_iff {name : String} :
    labels.lookup name = none ↔ name ∉ labels.map Prod.fst := by
  rw [List.lookup_eq_none_iff]
  constructor
  · intro h hmem
    obtain ⟨entry, he, rfl⟩ := List.mem_map.mp hmem
    simpa using h entry he
  · intro h entry he
    have hne : name ≠ entry.1 := fun heq => h (heq ▸ List.mem_map_of_mem he)
    simpa using hne

theorem Fit.nil (v : Vocabulary) : Fit v 0 [] :=
  ⟨by simp, by simp, by simp, by simp⟩

theorem Fit.succ (h : Fit v line labels) : Fit v (line + 1) labels :=
  ⟨fun entry he => Nat.lt_succ_of_lt (h.lines entry he), h.names, h.nodup_lines, h.nodup_names⟩

/-- A label may be added on the next line. -/
theorem Fit.append (h : Fit v line labels) {name : String} (hname : v.isReserved name = false)
    (hnew : labels.lookup name = none) : Fit v (line + 1) (labels ++ [(name, line)]) := by
  have hfresh : name ∉ labels.map Prod.fst := lookup_eq_none_iff.mp hnew
  have hline : line ∉ labels.map Prod.snd := by
    intro hmem
    obtain ⟨entry, he, heq⟩ := List.mem_map.mp hmem
    have hlt := h.lines entry he
    omega
  refine ⟨?_, ?_, ?_, ?_⟩
  · intro entry he
    rcases List.mem_append.mp he with he | he
    · exact Nat.lt_succ_of_lt (h.lines entry he)
    · obtain rfl : entry = (name, line) := by simpa using he
      exact Nat.lt_succ_self line
  · intro entry he
    rcases List.mem_append.mp he with he | he
    · exact h.names entry he
    · obtain rfl : entry = (name, line) := by simpa using he
      exact hname
  · rw [List.map_append]
    exact h.nodup_lines.append (List.nodup_singleton _) (by simpa using hline)
  · rw [List.map_append]
    exact h.nodup_names.append (List.nodup_singleton _) (by simpa using hfresh)

end Labels

namespace LineContext

variable {ctx : LineContext} {labels labels' : Labels}

/-- A label that is declared is free, new, and the last. -/
theorem declare_spec {name : String} {ws : Words} (h : ctx.declare labels name ws = .ok labels') :
    ctx.vocabulary.isReserved name = false ∧ labels.lookup name = none ∧
      labels' = labels ++ [(name, ctx.line)] := by
  unfold declare at h
  split at h
  · simp [objectTo] at h
  · next hname =>
    split at h
    · simp [objectTo] at h
    · next hnew => exact ⟨by simpa using hname, hnew, (Except.ok.inj h).symm⟩

theorem declare_fit {name : String} {ws : Words} (hfit : labels.Fit ctx.vocabulary ctx.line)
    (h : ctx.declare labels name ws = .ok labels') :
    labels'.Fit ctx.vocabulary (ctx.line + 1) := by
  obtain ⟨hname, hnew, rfl⟩ := declare_spec h
  exact hfit.append hname hnew

/-- What reading a line establishes. -/
theorem instruction_spec {tokens : List Token} {i : Instruction Goto}
    (hline : ctx.line < ctx.lineCount) (hfit : labels.Fit ctx.vocabulary ctx.line)
    (h : ctx.instruction labels tokens = .ok (i, labels')) :
    ctx.Reads i ∧ (i.kind = .placeholder → ctx.vocabulary.allowsPlaceholders = true) ∧
      labels'.Fit ctx.vocabulary (ctx.line + 1) := by
  unfold LineContext.instruction at h
  dsimp only at h
  split at h
  · -- no words at all
    split at h
    · next hallows =>
      obtain ⟨j, hbody, h⟩ := bind_eq_ok.mp h
      obtain ⟨rfl, rfl⟩ : j = i ∧ labels = labels' := by simpa [pure, Except.pure] using h
      exact ⟨(wholeBody_spec hline hbody).1, fun _ => hallows, hfit.succ⟩
    · simp [missing] at h
  · simp [missing] at h
  · -- a label
    next name rest =>
    obtain ⟨declared, hdeclare, h⟩ := bind_eq_ok.mp h
    split at h
    · simp [missing] at h
    · next hrest =>
      obtain ⟨j, hbody, h⟩ := bind_eq_ok.mp h
      obtain ⟨rfl, rfl⟩ : j = i ∧ declared = labels' := by simpa [pure, Except.pure] using h
      obtain ⟨hreads, hempty⟩ := wholeBody_spec hline hbody
      refine ⟨hreads, fun hp => ?_, declare_fit hfit hdeclare⟩
      obtain rfl : rest = [] := hempty hp
      simpa using hrest
  · -- words without a label
    next hne _ _ =>
    obtain ⟨j, hbody, h⟩ := bind_eq_ok.mp h
    obtain ⟨rfl, rfl⟩ : j = i ∧ labels = labels' := by simpa [pure, Except.pure] using h
    obtain ⟨hreads, hempty⟩ := wholeBody_spec hline hbody
    exact ⟨hreads, fun hp => absurd (hempty hp) hne, hfit.succ⟩

end LineContext

/-! ## Sources -/

namespace Draft

/-- Reading the rest of the lines of a source. -/
theorem readLines_spec {v : Vocabulary} {lineCount : Nat} :
    ∀ (texts : List (List Char)) (line : Nat) (comment : Comment) (labels : Labels)
      {instructions : List (Instruction Goto)} {labels' : Labels},
      line + texts.length = lineCount → labels.Fit v line →
      readLines v lineCount line comment labels texts = .ok (instructions, labels') →
      instructions.length = texts.length ∧ labels'.Fit v lineCount ∧
        ∀ k i, instructions[k]? = some i →
          LineContext.Reads ⟨v, line + k, lineCount⟩ i ∧
            (i.kind = .placeholder → v.allowsPlaceholders = true)
  | [], line, comment, labels, instructions, labels', hcount, hfit, h => by
      cases comment with
      | opened opening => simp [readLines] at h
      | closed =>
        obtain ⟨rfl, rfl⟩ : [] = instructions ∧ labels = labels' := by simpa [readLines] using h
        obtain rfl : line = lineCount := by simpa using hcount
        exact ⟨rfl, hfit, by simp⟩
  | text :: rest, line, comment, labels, instructions, labels', hcount, hfit, h => by
      rw [readLines] at h
      dsimp only at h
      split at h
      · simp at h
      · next i labels₁ hfirst =>
        split at h
        · simp at h
        · next others labels₂ hrest =>
          obtain ⟨rfl, rfl⟩ : i :: others = instructions ∧ labels₂ = labels' := by simpa using h
          simp only [List.length_cons] at hcount
          obtain ⟨hreads, hallows, hfit₁⟩ := LineContext.instruction_spec
            (show line < lineCount by omega) hfit hfirst
          obtain ⟨hlength, hfit₂, hothers⟩ := readLines_spec rest (line + 1) _ labels₁
            (by omega) hfit₁ hrest
          refine ⟨by simp [hlength], hfit₂, ?_⟩
          intro k j hk
          cases k with
          | zero =>
            obtain rfl : i = j := by simpa using hk
            exact ⟨hreads, hallows⟩
          | succ k =>
            have hspec := hothers k j (by simpa using hk)
            rwa [show line + (k + 1) = line + 1 + k by omega]

/-- What is known of a draft that was read from a source. -/
structure Fits (d : Draft) : Prop where
  labels : d.labels.Fit d.dialect.vocabulary d.instructions.length
  reads : ∀ k i, d.instructions[k]? = some i →
    LineContext.Reads ⟨d.dialect.vocabulary, k, d.instructions.length⟩ i
  placeholder : ∀ i ∈ d.instructions, i.kind = .placeholder →
    d.dialect.vocabulary.allowsPlaceholders = true

theorem length_sourceLines (source : String) :
    (sourceLines source).length = source.toList.count '\n' + 1 := by
  rw [sourceLines, Text.length_pieces, List.count]

theorem ofSource_spec {dialect : Dialect} {source : String} {d : Draft}
    (h : ofSource dialect source = .ok d) :
    d.dialect = dialect ∧ d.instructions.length = source.toList.count '\n' + 1 ∧ d.Fits := by
  unfold ofSource at h
  obtain ⟨⟨instructions, labels⟩, hread, h⟩ := bind_eq_ok.mp h
  obtain rfl : (⟨dialect, instructions, labels⟩ : Draft) = d := by
    simpa [pure, Except.pure] using h
  obtain ⟨hlength, hfit, hreads⟩ := readLines_spec _ 0 _ _ (by simp) (.nil _) hread
  refine ⟨rfl, by rw [hlength, length_sourceLines], ?_, ?_, ?_⟩
  · rw [← hlength] at hfit
    exact hfit
  · intro k i hk
    have hspec := (hreads k i hk).1
    rw [Nat.zero_add, ← hlength] at hspec
    exact hspec
  · intro i hi
    obtain ⟨k, hk⟩ := List.getElem?_of_mem hi
    exact (hreads k i hk).2

end Draft

end PixelTurtle
