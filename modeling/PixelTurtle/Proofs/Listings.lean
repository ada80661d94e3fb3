/-
PixelTurtle.Proofs.Listings — a listing tells everything about a program that a
run can see.

A line of a listing is its number and then words with a blank between them: the
label and a colon, and the words of the instruction. Lines and words can be cut
apart again, because no word holds a blank or a line feed. Labels come from a
source and may be almost anything, but they are words of one of its lines
(`isWord_of_mem_lex`).

* `Action.words_append_inj` — the words of an action tell the action, and where
  they end. So an instruction that is shown with both of its actions can be told
  from one that is shown with one (`Instruction.words_inj`).
* `Program.labels_eq_of_labelOn?` — the labels on the lines tell the table of
  labels, which is in the order of the lines.
* `Program.listing_injective` — programs with the same listing run alike. A
  placeholder shows no target, but it has only one that it can go on to.
-/
import PixelTurtle.Program.Listing
import PixelTurtle.Proofs.BlankLines
import PixelTurtle.Proofs.Exchange

namespace PixelTurtle

/-! ## Texts made of words -/

theorem toString_injective : Function.Injective (toString : Nat → String) := by
  intro m n h
  rw [Nat.toString_eq_repr, Nat.toString_eq_repr] at h
  rw [← Nat.ofDigitChars_ten_toDigits (n := m), ← Nat.toList_repr, h, Nat.toList_repr,
    Nat.ofDigitChars_ten_toDigits]

/-- A word of a listing: nothing in it separates words or lines. -/
def IsWord (word : String) : Prop :=
  ' ' ∉ word.toList ∧ '\n' ∉ word.toList

instance (word : String) : Decidable (IsWord word) :=
  inferInstanceAs (Decidable (_ ∧ _))

theorem isDigit_of_mem_toString {n : Nat} {c : Char} (h : c ∈ (toString n).toList) :
    c.isDigit = true := by
  rw [Nat.toString_eq_repr, Nat.toList_repr] at h
  exact Nat.isDigit_of_mem_toDigits (by decide) (by decide) h

theorem isWord_toString (n : Nat) : IsWord (toString n) :=
  ⟨fun h => absurd (isDigit_of_mem_toString h) (by decide),
    fun h => absurd (isDigit_of_mem_toString h) (by decide)⟩

theorem not_mem_intercalate {ws : List String} (h : ∀ word ∈ ws, IsWord word) :
    '\n' ∉ (" ".intercalate ws).toList := by
  induction ws with
  | nil => simp
  | cons word rest ih =>
    obtain ⟨hword, hrest⟩ := List.forall_mem_cons.mp h
    cases rest with
    | nil => simpa using hword.2
    | cons next rest =>
      rw [String.intercalate_cons_cons]
      simp only [String.toList_append, List.mem_append, not_or]
      exact ⟨⟨hword.2, by decide⟩, ih hrest⟩

theorem splitOn_intercalate_words {ws : List String} (hne : ws ≠ [])
    (h : ∀ word ∈ ws, IsWord word) :
    (" ".intercalate ws).toList.splitOn ' ' = ws.map String.toList := by
  rw [String.toList_intercalate]
  refine List.splitOn_intercalate ' ' ?_ (by simpa using hne)
  intro text htext
  obtain ⟨word, hword, rfl⟩ := List.mem_map.mp htext
  exact (h word hword).1

/-- Words that are set apart by blanks can be told from their text. -/
theorem intercalate_injective {ws ws' : List String} (hne : ws ≠ []) (hne' : ws' ≠ [])
    (h : ∀ word ∈ ws, IsWord word) (h' : ∀ word ∈ ws', IsWord word)
    (heq : " ".intercalate ws = " ".intercalate ws') : ws = ws' := by
  have hcut := splitOn_intercalate_words hne h
  rw [heq, splitOn_intercalate_words hne' h'] at hcut
  exact (List.map_injective_iff.mpr fun a b => String.toList_inj.mp) hcut.symm

/-- Behind the last line feed there is one more piece, which is empty. -/
theorem splitOn_join_lines {lines : List String} (h : ∀ line ∈ lines, '\n' ∉ line.toList) :
    (String.join (lines.map (· ++ "\n"))).toList.splitOn '\n' =
      lines.map String.toList ++ [[]] := by
  induction lines with
  | nil => rfl
  | cons line rest ih =>
    obtain ⟨hline, hrest⟩ := List.forall_mem_cons.mp h
    have hfirst : ∀ c ∈ line.toList, (c == '\n') = false := by
      intro c hc
      simpa using fun heq : c = '\n' => hline (heq ▸ hc)
    have htext : (String.join ((line :: rest).map (· ++ "\n"))).toList =
        line.toList ++ '\n' :: (String.join (rest.map (· ++ "\n"))).toList := by
      simp [String.join_cons]
    rw [htext, List.splitOn, List.splitOnP_append_cons_of_forall_mem hfirst _ rfl]
    exact congrArg (List.cons line.toList) (ih hrest)

/-- Lines that are each ended by a line feed can be told from their text. -/
theorem join_injective {lines lines' : List String} (h : ∀ line ∈ lines, '\n' ∉ line.toList)
    (h' : ∀ line ∈ lines', '\n' ∉ line.toList)
    (heq : String.join (lines.map (· ++ "\n")) = String.join (lines'.map (· ++ "\n"))) :
    lines = lines' := by
  have hcut := splitOn_join_lines h
  rw [heq, splitOn_join_lines h', List.append_left_inj] at hcut
  exact (List.map_injective_iff.mpr fun a b => String.toList_inj.mp) hcut.symm

/-! ## The words of a line -/

/-- The words of a target. -/
def Target.words : Target → List String
  | .jump line => ["goto", toString (line + 1)]
  | .exit status => ["exit", toString status.toNat]

/-- The word of a direction, if it has one. -/
def Direction.words (d : Direction) : List String :=
  if d = .nowhere then [] else [d.name]

/-- The words of an optional write. -/
def writeWords : Option Color → List String
  | some color => ["write", color.name]
  | none => []

/-- The words of an action. -/
def Action.words (a : Action Target) : List String :=
  writeWords a.write ++ (a.direction.words ++ a.target.words)

/-- The words of an instruction that is shown with both of its actions. -/
def Instruction.branchingWords (i : Instruction Target) : List String :=
  ["if", "white"] ++ (i.white.words ++ (["else"] ++ i.color.words))

/-- The words of an instruction. -/
def Instruction.words (i : Instruction Target) : List String :=
  match i.kind with
  | .placeholder => ["-"]
  | .unconditional => if i.white = i.color then i.white.words else i.branchingWords
  | .conditional => i.branchingWords

theorem Target.text_eq (t : Target) : t.text = " ".intercalate t.words := by
  cases t <;> simp [text, words] <;> rfl

theorem Target.words_ne_nil (t : Target) : t.words ≠ [] := by
  cases t <;> simp [words]

theorem Action.words_ne_nil (a : Action Target) : a.words ≠ [] := by
  simp [words, a.target.words_ne_nil]

theorem Action.text_eq (a : Action Target) : a.text = " ".intercalate a.words := by
  have htarget := a.target.words_ne_nil
  have hrest : (if a.isStill then "" else a.direction.name ++ " ") ++ a.target.text =
      " ".intercalate (a.direction.words ++ a.target.words) := by
    rw [a.target.text_eq]
    by_cases hstill : a.direction = .nowhere
    · simp [isStill, Direction.words, hstill]
    · rw [String.intercalate_append_of_ne_nil (by simp [Direction.words, hstill]) htarget]
      simp [isStill, Direction.words, hstill]
  rw [words, text, String.append_assoc, hrest]
  cases a.write with
  | none => simp [writeWords]
  | some color =>
    have hne : a.direction.words ++ a.target.words ≠ [] := by simp [htarget]
    have hwrite := String.intercalate_append_of_ne_nil (l := ["write", color.name]) (s := " ")
      (by simp) hne
    rw [writeWords, hwrite]
    rfl

theorem Instruction.words_ne_nil (i : Instruction Target) : i.words ≠ [] := by
  unfold words
  split
  · simp
  · split
    · exact i.white.words_ne_nil
    · simp [branchingWords]
  · simp [branchingWords]

theorem Instruction.text_eq (i : Instruction Target) : i.text = " ".intercalate i.words := by
  have hbranching : "if white " ++ i.white.text ++ " else " ++ i.color.text =
      " ".intercalate i.branchingWords := by
    have helse : " else " = " " ++ ("else" ++ " ") := rfl
    rw [branchingWords, String.intercalate_append_of_ne_nil (by simp) (by simp),
      String.intercalate_append_of_ne_nil i.white.words_ne_nil (by simp),
      String.intercalate_append_of_ne_nil (by simp) i.color.words_ne_nil, i.white.text_eq,
      i.color.text_eq, helse]
    simp only [String.append_assoc]
    rfl
  unfold text words
  dsimp only
  rw [hbranching, i.white.text_eq]
  cases i.kind with
  | placeholder => rfl
  | conditional => rfl
  | unconditional =>
    dsimp only
    split <;> rfl

/-! Every word of a line is one. -/

theorem isWord_of_writeWords (write : Option Color) : ∀ word ∈ writeWords write, IsWord word := by
  cases write with
  | none => simp [writeWords]
  | some color => cases color <;> decide

theorem Direction.isWord (d : Direction) : ∀ word ∈ d.words, IsWord word := by
  cases d <;> decide

theorem Target.isWord (t : Target) : ∀ word ∈ t.words, IsWord word := by
  cases t with
  | jump line =>
    exact List.forall_mem_cons.mpr ⟨by decide, List.forall_mem_singleton.mpr (isWord_toString _)⟩
  | exit status =>
    exact List.forall_mem_cons.mpr ⟨by decide, List.forall_mem_singleton.mpr (isWord_toString _)⟩

theorem Action.isWord (a : Action Target) : ∀ word ∈ a.words, IsWord word :=
  List.forall_mem_append.mpr
    ⟨isWord_of_writeWords _, List.forall_mem_append.mpr ⟨a.direction.isWord, a.target.isWord⟩⟩

theorem Instruction.isWord (i : Instruction Target) : ∀ word ∈ i.words, IsWord word := by
  have hbranching : ∀ word ∈ i.branchingWords, IsWord word :=
    List.forall_mem_append.mpr ⟨by decide, List.forall_mem_append.mpr
      ⟨i.white.isWord, List.forall_mem_append.mpr ⟨by decide, i.color.isWord⟩⟩⟩
  unfold words
  split
  · decide
  · split
    · exact i.white.isWord
    · exact hbranching
  · exact hbranching

/-! ## Words tell the actions

The words of an action can be told from what follows them. -/

theorem Color.name_injective : Function.Injective Color.name := by
  intro a b h
  cases a <;> cases b <;> simp_all [name]

theorem Target.words_append_inj {t t' : Target} {rest rest' : List String}
    (h : t.words ++ rest = t'.words ++ rest') : t = t' ∧ rest = rest' := by
  cases t with
  | jump line =>
    cases t' with
    | jump line' =>
      obtain ⟨hline, hrest⟩ : toString (line + 1) = toString (line' + 1) ∧ rest = rest' := by
        simpa [words] using h
      exact ⟨by simpa using toString_injective hline, hrest⟩
    | exit status => simp [words] at h
  | exit status =>
    cases t' with
    | jump line => simp [words] at h
    | exit status' =>
      obtain ⟨hstatus, hrest⟩ : toString status.toNat = toString status'.toNat ∧ rest = rest' := by
        simpa [words] using h
      exact ⟨congrArg exit (UInt32.toNat_inj.mp (toString_injective hstatus)), hrest⟩

/-- The words that an action may begin with. -/
def openings : List String :=
  ["write", "up", "down", "left", "right", "goto", "exit"]

/-- A move and a jump begin with any of these words but the first. -/
theorem exists_steer_words (d : Direction) (t : Target) :
    ∃ word ∈ openings.tail, ∃ rest, d.words ++ t.words = word :: rest := by
  cases d <;> cases t <;> simp [Direction.words, Direction.name, Target.words, openings]

theorem Action.exists_words (a : Action Target) :
    ∃ word ∈ openings, ∃ rest, a.words = word :: rest := by
  cases hwrite : a.write with
  | none =>
    obtain ⟨word, hword, rest, hrest⟩ := exists_steer_words a.direction a.target
    exact ⟨word, List.mem_of_mem_tail hword, rest, by simp [words, hwrite, writeWords, hrest]⟩
  | some color =>
    exact ⟨"write", by decide, color.name :: (a.direction.words ++ a.target.words),
      by simp [words, hwrite, writeWords]⟩

/-- Without a write, an action does not begin like one with a write. -/
theorem write_ne_steer_words (d : Direction) (t : Target) (rest rest' : List String) :
    d.words ++ t.words ++ rest ≠ "write" :: rest' := by
  obtain ⟨word, hword, others, hothers⟩ := exists_steer_words d t
  rw [hothers]
  intro heq
  obtain ⟨rfl, -⟩ := List.cons.inj heq
  exact absurd hword (by decide)

theorem steer_words_inj {d d' : Direction} {t t' : Target} {rest rest' : List String}
    (h : d.words ++ t.words ++ rest = d'.words ++ t'.words ++ rest') :
    d = d' ∧ t = t' ∧ rest = rest' := by
  have hdirection : d = d' ∧ t.words ++ rest = t'.words ++ rest' := by
    cases d <;> cases d' <;> cases t <;> cases t' <;>
      simp_all [Direction.words, Direction.name, Target.words]
  exact ⟨hdirection.1, Target.words_append_inj hdirection.2⟩

/-- The words of an action tell the action, whatever words follow. -/
theorem Action.words_append_inj {a b : Action Target} {rest rest' : List String}
    (h : a.words ++ rest = b.words ++ rest') : a = b ∧ rest = rest' := by
  obtain ⟨write, direction, target⟩ := a
  obtain ⟨write', direction', target'⟩ := b
  simp only [words, List.append_assoc (writeWords _)] at h
  cases write with
  | none =>
    cases write' with
    | none =>
      obtain ⟨rfl, rfl, rfl⟩ := steer_words_inj h
      exact ⟨rfl, rfl⟩
    | some color' => exact absurd h (write_ne_steer_words _ _ _ _)
  | some color =>
    cases write' with
    | none => exact absurd h.symm (write_ne_steer_words _ _ _ _)
    | some color' =>
      obtain ⟨hcolor, hsteer⟩ := List.cons.inj (List.cons.inj h).2
      obtain rfl := Color.name_injective hcolor
      obtain ⟨rfl, rfl, rfl⟩ := steer_words_inj hsteer
      exact ⟨rfl, rfl⟩

theorem Action.words_inj {a b : Action Target} (h : a.words = b.words) : a = b := by
  have happend : a.words ++ [] = b.words ++ [] := congrArg (· ++ []) h
  exact (words_append_inj happend).1

/-- How the words of an instruction are put together. -/
theorem Instruction.words_cases (i : Instruction Target) :
    (i.kind = .placeholder ∧ i.words = ["-"]) ∨
      (i.kind ≠ .placeholder ∧ i.white = i.color ∧ i.words = i.white.words) ∨
      (i.kind ≠ .placeholder ∧ i.words = i.branchingWords) := by
  unfold words
  cases i.kind with
  | placeholder => exact .inl ⟨rfl, rfl⟩
  | conditional => exact .inr (.inr ⟨by simp, rfl⟩)
  | unconditional =>
    by_cases hsame : i.white = i.color
    · exact .inr (.inl ⟨by simp, hsame, if_pos hsame⟩)
    · exact .inr (.inr ⟨by simp, if_neg hsame⟩)

/-- No action begins with a word that is not among the openings. -/
theorem Action.words_ne_cons {word : String} (h : word ∉ openings) (a : Action Target)
    (rest : List String) : a.words ≠ word :: rest := by
  obtain ⟨first, hfirst, others, hothers⟩ := a.exists_words
  rw [hothers]
  intro heq
  obtain ⟨rfl, -⟩ := List.cons.inj heq
  exact h hfirst

/-- No instruction begins with a word that holds a colon. -/
theorem Instruction.words_ne_cons {word : String} (h : ':' ∈ word.toList)
    (i : Instruction Target) (rest : List String) : i.words ≠ word :: rest := by
  have hopening : ∀ first ∈ "-" :: "if" :: openings, ':' ∉ first.toList := by decide
  have hwords : ∃ first ∈ "-" :: "if" :: openings, ∃ others, i.words = first :: others := by
    rcases i.words_cases with ⟨-, hwords⟩ | ⟨-, -, hwords⟩ | ⟨-, hwords⟩
    · exact ⟨"-", by decide, _, hwords⟩
    · obtain ⟨first, hfirst, others, hothers⟩ := i.white.exists_words
      exact ⟨first, by simp [hfirst], others, hwords.trans hothers⟩
    · exact ⟨"if", by decide, _, hwords⟩
  obtain ⟨first, hfirst, others, hothers⟩ := hwords
  rw [hothers]
  intro heq
  obtain ⟨rfl, -⟩ := List.cons.inj heq
  exact hopening first hfirst h

/-- The words of an instruction tell whether it is a placeholder, and its actions
if it is not. -/
theorem Instruction.words_inj {i j : Instruction Target} (h : i.words = j.words) :
    (i.kind = .placeholder ↔ j.kind = .placeholder) ∧
      (i.kind ≠ .placeholder → i.white = j.white ∧ i.color = j.color) := by
  have hdash : ∀ (a : Action Target) rest, a.words ≠ "-" :: rest :=
    Action.words_ne_cons (by decide)
  have hif : ∀ (a : Action Target) rest, a.words ≠ "if" :: rest :=
    Action.words_ne_cons (by decide)
  rcases i.words_cases with ⟨hi, hwords⟩ | ⟨hi, hsame, hwords⟩ | ⟨hi, hwords⟩
  · -- a placeholder
    rw [hwords] at h
    rcases j.words_cases with ⟨hj, hwords'⟩ | ⟨-, -, hwords'⟩ | ⟨-, hwords'⟩ <;> rw [hwords'] at h
    · simp [hi, hj]
    · exact absurd h.symm (hdash _ _)
    · simp [branchingWords] at h
  · -- shown with one action
    rw [hwords] at h
    rcases j.words_cases with ⟨-, hwords'⟩ | ⟨hj, hsame', hwords'⟩ | ⟨-, hwords'⟩ <;>
      rw [hwords'] at h
    · exact absurd h (hdash _ _)
    · have hwhite := Action.words_inj h
      simp [hi, hj, hwhite, ← hsame, ← hsame']
    · exact absurd h (hif _ _)
  · -- shown with both
    rw [hwords] at h
    rcases j.words_cases with ⟨-, hwords'⟩ | ⟨-, -, hwords'⟩ | ⟨hj, hwords'⟩ <;> rw [hwords'] at h
    · simp [branchingWords] at h
    · exact absurd h.symm (hif _ _)
    · obtain ⟨hwhite, hrest⟩ := Action.words_append_inj (List.append_cancel_left h)
      have hcolor := Action.words_inj (List.append_cancel_left hrest)
      simp [hi, hj, hwhite, hcolor]

/-! ## Labels -/

/-- The words among the tokens are made of characters of a kind. -/
def SpelledIn (P : Char → Prop) (tokens : List Token) : Prop :=
  ∀ word, .word word ∈ tokens → ∀ c ∈ word.toList, P c

theorem SpelledIn.flushWord {P : Char → Prop} {pending : List Char} {tokens : List Token}
    (hpending : ∀ c ∈ pending, P c) (h : SpelledIn P tokens) :
    SpelledIn P (flushWord pending tokens) := by
  cases pending with
  | nil => exact h
  | cons c rest =>
    intro word hword d hd
    rcases List.mem_cons.mp hword with hfirst | hmem
    · rw [Token.word.inj hfirst, String.toList_ofList, List.mem_reverse] at hd
      exact hpending d hd
    · exact h word hmem d hd

/-- A word of a line is made of characters of the line that are no separators. -/
theorem spelledIn_scan {P : Char → Prop} (line : Nat) (mode : LexMode) (pending text : List Char)
    (hpending : ∀ c ∈ pending, P c) (htext : ∀ c ∈ text, isSeparator c = false → P c) :
    SpelledIn P (scan line mode pending text).1 := by
  have hnil : SpelledIn P [] := by simp [SpelledIn]
  fun_induction scan line mode pending text with
  | case1 mode pending => exact hnil.flushWord hpending
  | case4 pending rest tokens comment hscan _ _ ih =>
    rw [hscan] at ih
    have hrest := ih (by simp) fun c hc => htext c (List.mem_cons_of_mem _ hc)
    exact SpelledIn.flushWord hpending (by simpa [SpelledIn] using hrest)
  | case6 pending c rest _ _ _ hseparator ih =>
    -- the one case in which a word grows
    refine ih (fun d hd => ?_) fun d hd => htext d (List.mem_cons_of_mem _ hd)
    rcases List.mem_cons.mp hd with rfl | hd
    · exact htext d List.mem_cons_self (by simpa using hseparator)
    · exact hpending d hd
  | _ => simp_all [SpelledIn.flushWord]

theorem isWord_of_mem_lex {line : Nat} {comment : Comment} {text : List Char} {word : String}
    (htext : '\n' ∉ text) (h : .word word ∈ (lex line comment text).1) : IsWord word := by
  have hchars : ∀ c ∈ text, isSeparator c = false → c ≠ ' ' ∧ c ≠ '\n' := by
    intro c hc hseparator
    refine ⟨?_, fun heq => htext (heq ▸ hc)⟩
    rintro rfl
    simp [isSeparator] at hseparator
  have hspelled := spelledIn_scan line (.ofComment comment) [] text (by simp) hchars word h
  exact ⟨fun hc => (hspelled _ hc).1 rfl, fun hc => (hspelled _ hc).2 rfl⟩

theorem mem_of_labelOf? {tokens : List Token} {name : String} (h : labelOf? tokens = some name) :
    .word name ∈ tokens := by
  unfold labelOf? at h
  split at h
  · obtain rfl := Option.some.inj h
    exact List.mem_cons_self
  · simp at h

theorem isWord_of_mem_declared {name : String} (texts : List (List Char)) :
    ∀ (line : Nat) (comment : Comment), (∀ text ∈ texts, '\n' ∉ text) →
      name ∈ declared line comment texts → IsWord name := by
  induction texts with
  | nil => simp [declared, lexLines]
  | cons text texts ih =>
    intro line comment htexts hname
    have hrest := ih (line + 1) (lex line comment text).2
      fun text' htext' => htexts text' (List.mem_cons_of_mem _ htext')
    rw [declared, lexLines, List.filterMap_cons] at hname
    split at hname
    · exact hrest hname
    · next found hfound =>
      rcases List.mem_cons.mp hname with rfl | hname
      · exact isWord_of_mem_lex (htexts text List.mem_cons_self) (mem_of_labelOf? hfound)
      · exact hrest hname

/-- Labels stand in the table in the order of their lines. -/
theorem Reader.Reads.ordered {v : Vocabulary} {lineCount : Nat} {s s' : Reader}
    {texts : List (List Char)} {is : List (Instruction Goto)}
    (h : Reads v lineCount s texts is s') (hordered : s.labels.Pairwise (·.2 < ·.2))
    (hbelow : ∀ entry ∈ s.labels, entry.2 < s.line) : s'.labels.Pairwise (·.2 < ·.2) := by
  induction h with
  | nil s => exact hordered
  | @cons s s₁ _ text _ _ _ first _ ih =>
    obtain ⟨hread, hline, -⟩ := read_spec first
    have hlabels := LineContext.instruction_labels hread
    rw [hlabels, hline] at ih
    cases hlabel : labelOf? (lex s.line s.comment text).1 with
    | none =>
      simp only [hlabel, Option.toList_none, List.map_nil, List.append_nil] at ih
      exact ih hordered fun entry hentry => Nat.lt_succ_of_lt (hbelow entry hentry)
    | some name =>
      simp only [hlabel, Option.toList_some, List.map_singleton] at ih
      refine ih ?_ ?_
      · rw [List.pairwise_append]
        refine ⟨hordered, List.pairwise_singleton _ _, ?_⟩
        simpa using hbelow
      · intro entry hentry
        rcases List.mem_append.mp hentry with hbefore | hnew
        · exact Nat.lt_succ_of_lt (hbelow entry hbefore)
        · obtain rfl : entry = (name, s.line) := by simpa using hnew
          exact Nat.lt_succ_self _

/-- Tables in order with the same entries are the same. -/
theorem Labels.eq_of_mem_iff {labels labels' : Labels} (h : labels.Pairwise (·.2 < ·.2))
    (h' : labels'.Pairwise (·.2 < ·.2)) (hmem : ∀ entry, entry ∈ labels ↔ entry ∈ labels') :
    labels = labels' := by
  have hnodup : ∀ {labels : Labels}, labels.Pairwise (·.2 < ·.2) → labels.Nodup := by
    intro labels h
    refine List.Pairwise.imp ?_ h
    rintro a _ hlt rfl
    exact Nat.lt_irrefl _ hlt
  have hperm := (List.perm_ext_iff_of_nodup (hnodup h) (hnodup h')).mpr hmem
  exact hperm.eq_of_pairwise (fun a b _ _ hlt hgt => absurd hlt (Nat.lt_asymm hgt)) h h'

namespace Program

/-- What a listing relies on in the labels of a program. -/
structure LabelsOrdered (p : Program) : Prop where
  ordered : p.labels.Pairwise (·.2 < ·.2)
  names : ∀ entry ∈ p.labels, IsWord entry.1
  lines : ∀ entry ∈ p.labels, entry.2 < p.size

theorem labelsOrdered_of_compile {options : CompileOptions} {source : String} {p : Program}
    (h : compile options source = .ok p) : p.LabelsOrdered := by
  have hlines := (compile_wellFormed h).labels_lt
  obtain ⟨d, linked, code, hd, -, -, rfl⟩ := compile_eq_ok_iff.mp h
  obtain ⟨is, s, hreads, -, rfl⟩ := Draft.ofSource_eq_ok_iff.mp hd
  refine ⟨hreads.ordered .nil (by simp [Reader.start]), fun entry hentry => ?_, hlines⟩
  refine isWord_of_mem_declared (Draft.sourceLines source) 0 .closed
    (fun text htext => Text.not_mem_of_mem_pieces htext) ?_
  rw [← Draft.names_of_readsAll hreads]
  exact List.mem_map_of_mem hentry

variable {p q : Program}

/-- The label shown on a line is the one that stands there. -/
theorem labelOn?_eq_some_iff (h : p.LabelsOrdered) {line : Nat} {name : String} :
    p.labelOn? line = some name ↔ (name, line) ∈ p.labels := by
  have hnodup : (p.labels.map Prod.snd).Nodup :=
    (List.pairwise_map.mpr h.ordered).imp fun hlt => Nat.ne_of_lt hlt
  unfold labelOn?
  constructor
  · intro hlabel
    obtain ⟨⟨name', line'⟩, hfind, rfl⟩ := Option.map_eq_some_iff.mp hlabel
    obtain rfl : line' = line := by simpa using List.find?_some hfind
    exact List.mem_of_find?_eq_some hfind
  · intro hmem
    cases hfind : p.labels.find? (fun entry => entry.2 == line) with
    | none => simpa using List.find?_eq_none.mp hfind _ hmem
    | some entry =>
      have hline : entry.2 = line := by simpa using List.find?_some hfind
      have hentry := List.mem_of_find?_eq_some hfind
      rw [List.inj_on_of_nodup_map hnodup hentry hmem hline]
      rfl

/-- The words of a line of the listing, behind its number. -/
def lineWords (p : Program) (line : Nat) (i : Instruction Target) : List String :=
  (p.labelOn? line).toList.map (· ++ ":") ++ i.words

theorem listingLine_eq (p : Program) (line : Nat) (i : Instruction Target) :
    p.listingLine line i =
      lineNumber (line + 1) ++ (" " ++ " ".intercalate (p.lineWords line i)) := by
  have hwords := i.words_ne_nil
  rw [listingLine, lineWords, i.text_eq]
  cases p.labelOn? line with
  | none => simp [String.append_assoc]
  | some label =>
    have happend := String.intercalate_append_of_ne_nil (l := [label ++ ":"]) (s := " ") (by simp)
      hwords
    simp only [Option.toList_some, List.map_singleton, happend, String.intercalate_singleton,
      String.append_assoc]
    rfl

theorem isWord_of_mem_lineWords (h : p.LabelsOrdered) (line : Nat) (i : Instruction Target) :
    ∀ word ∈ p.lineWords line i, IsWord word := by
  refine List.forall_mem_append.mpr ⟨fun word hword => ?_, i.isWord⟩
  obtain ⟨label, hlabel, rfl⟩ := List.mem_map.mp hword
  have hmem := (labelOn?_eq_some_iff h).mp (Option.mem_toList.mp hlabel)
  obtain ⟨hblank, hfeed⟩ := h.names _ hmem
  exact ⟨by simpa using hblank, by simpa using hfeed⟩

/-- The words of a line tell its label and the words of its instruction: only a
label ends in a colon. -/
theorem lineWords_inj {line : Nat} {i j : Instruction Target}
    (h : p.lineWords line i = q.lineWords line j) :
    p.labelOn? line = q.labelOn? line ∧ i.words = j.words := by
  unfold lineWords at h
  cases hp : p.labelOn? line with
  | none =>
    cases hq : q.labelOn? line with
    | none => exact ⟨rfl, by simpa [hp, hq] using h⟩
    | some label =>
      simp only [hp, hq, Option.toList_none, Option.toList_some, List.map_nil, List.map_singleton,
        List.nil_append, List.singleton_append] at h
      exact absurd h (i.words_ne_cons (by simp) _)
  | some label =>
    cases hq : q.labelOn? line with
    | none =>
      simp only [hp, hq, Option.toList_none, Option.toList_some, List.map_nil, List.map_singleton,
        List.nil_append, List.singleton_append] at h
      exact absurd h.symm (j.words_ne_cons (by simp) _)
    | some label' =>
      obtain ⟨hlabel, hwords⟩ : label = label' ∧ i.words = j.words := by simpa [hp, hq] using h
      exact ⟨congrArg some hlabel, hwords⟩

theorem not_mem_listingLine (h : p.LabelsOrdered) (line : Nat) (i : Instruction Target) :
    '\n' ∉ (p.listingLine line i).toList := by
  have hdigits := (isWord_toString (line + 1)).2
  have hwords := not_mem_intercalate (isWord_of_mem_lineWords h line i)
  simp only [listingLine_eq, lineNumber, String.toList_append, String.toList_ofList,
    List.mem_append, List.mem_replicate, not_or]
  exact ⟨⟨by simp, hdigits⟩, by decide, hwords⟩

theorem listing_eq (p : Program) :
    p.listing = String.join ((p.code.toList.mapIdx p.listingLine).map (· ++ "\n")) := by
  refine congrArg String.join (List.ext_getElem? fun n => ?_)
  simp [Function.comp_def]

/-- A listing tells the number of its lines and the words of each. -/
theorem lineWords_eq_of_listing (hp : p.LabelsOrdered) (hq : q.LabelsOrdered)
    (h : p.listing = q.listing) :
    p.size = q.size ∧ ∀ line i j, p.code[line]? = some i → q.code[line]? = some j →
      p.lineWords line i = q.lineWords line j := by
  have hfeed : ∀ {p : Program}, p.LabelsOrdered →
      ∀ text ∈ p.code.toList.mapIdx p.listingLine, '\n' ∉ text.toList := by
    intro p hp text htext
    obtain ⟨line, hline, rfl⟩ := List.mem_mapIdx.mp htext
    exact not_mem_listingLine hp _ _
  rw [listing_eq, listing_eq] at h
  have hlines := join_injective (hfeed hp) (hfeed hq) h
  refine ⟨by simpa [size] using congrArg List.length hlines, fun line i j hi hj => ?_⟩
  have hline := congrArg (·[line]?) hlines
  simp only [List.getElem?_mapIdx, Array.getElem?_toList, hi, hj, Option.map_some,
    Option.some.injEq, listingLine_eq] at hline
  rw [String.append_right_inj, String.append_right_inj] at hline
  refine intercalate_injective ?_ ?_ (isWord_of_mem_lineWords hp line i)
    (isWord_of_mem_lineWords hq line j) hline
  · simp [lineWords, i.words_ne_nil]
  · simp [lineWords, j.words_ne_nil]

theorem labels_eq_of_labelOn? (hp : p.LabelsOrdered) (hq : q.LabelsOrdered)
    (h : ∀ line, p.labelOn? line = q.labelOn? line) : p.labels = q.labels := by
  refine Labels.eq_of_mem_iff hp.ordered hq.ordered ?_
  rintro ⟨name, line⟩
  rw [← labelOn?_eq_some_iff hp, ← labelOn?_eq_some_iff hq, h]

theorem labelOn?_of_ge (h : p.LabelsOrdered) {line : Nat} (hline : p.size ≤ line) :
    p.labelOn? line = none := by
  cases hlabel : p.labelOn? line with
  | none => rfl
  | some name =>
    have hlt := h.lines _ ((labelOn?_eq_some_iff h).mp hlabel)
    exact absurd hlt (Nat.not_lt.mpr hline)

/-- What equal listings say of the lines of two programs. -/
theorem lines_eq_of_listing (hp : p.LabelsOrdered) (hq : q.LabelsOrdered)
    (h : p.listing = q.listing) (line : Nat) :
    p.labelOn? line = q.labelOn? line ∧
      p.code.isPlaceholder line = q.code.isPlaceholder line ∧
      (p.code.isPlaceholder line = false →
        ∀ slot, p.code.action line slot = q.code.action line slot) := by
  obtain ⟨hsize, hwords⟩ := lineWords_eq_of_listing hp hq h
  rcases Nat.lt_or_ge line p.size with hlt | hge
  · have hlt' : line < q.size := hsize ▸ hlt
    obtain ⟨i, hi⟩ : ∃ i, p.code[line]? = some i := ⟨_, Array.getElem?_eq_getElem hlt⟩
    obtain ⟨j, hj⟩ : ∃ j, q.code[line]? = some j := ⟨_, Array.getElem?_eq_getElem hlt'⟩
    obtain ⟨hlabel, hsame⟩ := lineWords_inj (hwords line i j hi hj)
    obtain ⟨hkind, hactions⟩ := Instruction.words_inj hsame
    simp only [Code.isPlaceholder, Code.action, hi, hj]
    refine ⟨hlabel, by simp [hkind], fun hnot slot => ?_⟩
    obtain ⟨hwhite, hcolor⟩ := hactions (by simpa using hnot)
    cases slot with
    | white => exact hwhite
    | color => exact hcolor
  · have hge' : q.size ≤ line := hsize ▸ hge
    refine ⟨by rw [labelOn?_of_ge hp hge, labelOn?_of_ge hq hge'], ?_, fun _ slot => ?_⟩
    · simp only [Code.isPlaceholder, Array.getElem?_eq_none hge, Array.getElem?_eq_none hge']
    · rw [Code.action_of_ge hge, Code.action_of_ge hge']

/-- A program with the same entry and the same actions does the same. -/
theorem standsInFor_of_action (hsize : p.size = q.size) (hentry : p.entry = q.entry)
    (haction : ∀ line slot, p.code.action line slot = q.code.action line slot) :
    q.StandsInFor (fun _ => True) p where
  size := hsize.symm
  entry := hentry.symm
  direction line slot := by rw [haction]
  target line slot := by rw [haction]
  paint canvas offset line _ := by rw [haction]
  kept _ _ _ _ := trivial

/-- A listing loses nothing that matters. Two programs, compiled from any sources
in any way, whose listings are the same text have the same labels, the same
placeholders, the same actions on every line and the same entry, and so they run
alike on every canvas. -/
theorem listing_injective {options options' : CompileOptions} {source source' : String}
    (hp : compile options source = .ok p) (hq : compile options' source' = .ok q)
    (h : p.listing = q.listing) :
    p.labels = q.labels ∧ p.size = q.size ∧
      (∀ line, p.code.isPlaceholder line = q.code.isPlaceholder line) ∧
      (∀ line slot, p.code.action line slot = q.code.action line slot) ∧
      p.entry = q.entry ∧
      ∀ canvas budget,
        let m := ((Machine.start p canvas).run budget).1
        let m' := ((Machine.start q canvas).run budget).1
        m.exitStatus? = m'.exitStatus? ∧ m.canvas = m'.canvas ∧ m.cursor = m'.cursor ∧
          m.line = m'.line ∧ m.executed = m'.executed := by
  have hpl := labelsOrdered_of_compile hp
  have hql := labelsOrdered_of_compile hq
  have hps := sound_of_compile hp
  have hqs := sound_of_compile hq
  have hlines := lines_eq_of_listing hpl hql h
  have hsize := (lineWords_eq_of_listing hpl hql h).1
  have hplaceholder := fun line => (hlines line).2.1
  have hlanding := Code.landing_of_placeholders hsize hplaceholder
  have haction : ∀ line slot, p.code.action line slot = q.code.action line slot := by
    intro line slot
    cases hline : p.code.isPlaceholder line with
    | false => exact (hlines line).2.2 hline slot
    | true =>
      -- the listing shows no target here, but there is only one that it can be
      rw [hps.placeholders line slot hline, hqs.placeholders line slot (hplaceholder line ▸ hline),
        hlanding]
  have hentry : p.entry = q.entry := by rw [entry_eq_landing hps, entry_eq_landing hqs, hlanding]
  refine ⟨labels_eq_of_labelOn? hpl hql fun line => (hlines line).1, hsize, hplaceholder, haction,
    hentry, fun canvas budget => ?_⟩
  have hstands := standsInFor_of_action hsize hentry haction
  have hstep := (Machine.step_load hstands (Machine.program_start p canvas) trivial budget []).1
  dsimp only [Machine.run]
  simp [Machine.start_load hstands, hstep]

/-- An unconditional line that folding splits in two, and in the other dialect the
conditional that it then looks like. -/
theorem listing_injective_split :
    ∃ p q, compile ⟨.palette, true, none⟩
          "goto b\nb: if white write white right goto b else write black exit 1" = .ok p ∧
      compile ⟨.binary, false, none⟩
          "if white move E else exit 1\nb: if white move E repeat else exit 1" = .ok q ∧
      p.code ≠ q.code ∧ p.listing = q.listing ∧ p.labels = q.labels ∧
      ∀ canvas budget, ((Machine.start p canvas).run budget).1.canvas =
        ((Machine.start q canvas).run budget).1.canvas := by
  obtain ⟨p, q, hp, hq, hne, h⟩ : ∃ p q, compile ⟨.palette, true, none⟩
          "goto b\nb: if white write white right goto b else write black exit 1" = .ok p ∧
      compile ⟨.binary, false, none⟩
          "if white move E else exit 1\nb: if white move E repeat else exit 1" = .ok q ∧
      p.code.kinds ≠ q.code.kinds ∧ p.listing = q.listing := ⟨_, _, rfl, rfl, by decide, rfl⟩
  obtain ⟨hlabels, -, -, -, -, hruns⟩ := listing_injective hp hq h
  exact ⟨p, q, hp, hq, fun heq => hne (congrArg Code.kinds heq), h, hlabels,
    fun canvas budget => (hruns canvas budget).2.1⟩

end Program

end PixelTurtle
