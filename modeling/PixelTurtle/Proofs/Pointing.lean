/-
PixelTurtle.Proofs.Pointing — a syntax fault points at the word that it quotes.

* `Complaint.exists_message_eq` — the first thing that a complaint about a word
  quotes is that word.
* `Complaint.eq_repeatedLabel` — only the complaint about a repeated label says
  that a label is defined already, and the line can be told from the message.
* `Reader.Reads.declares` — a label in the table is declared by the line that
  the table has for it.
* `Draft.pointsAt_of_badSyntax` — all of this for the first line of a source
  that is rejected.

`Draft.StopsAt` says which words of its line the reader still held. They are
determined by the source, since there is one way only to read the lines before.
-/
import PixelTurtle.Proofs.LineByLine
import PixelTurtle.Proofs.Listings
import PixelTurtle.Proofs.Places

namespace PixelTurtle

/-! ## What complaints say -/

/-- What follows the last of a separator can be cut off. -/
theorem append_cons_inj_of_not_mem {α : Type} {a b d e : List α} {c : α} (hd : c ∉ d)
    (he : c ∉ e) (h : a ++ c :: d = b ++ c :: e) : a = b ∧ d = e := by
  rcases List.append_eq_append_iff.mp h with ⟨mid, rfl, hmid⟩ | ⟨mid, rfl, hmid⟩
  · cases mid with
    | nil => simpa using hmid
    | cons x mid =>
      obtain ⟨-, rfl⟩ := List.cons.inj hmid
      simp at hd
  · cases mid with
    | nil => simpa using hmid.symm
    | cons x mid =>
      obtain ⟨-, rfl⟩ := List.cons.inj hmid
      simp at he

/-- A text that ends in a word can be told from it, and so can the word. -/
theorem append_word_inj {text text' word word' : String} (hword : IsWord word)
    (hword' : IsWord word') (h : text ++ " " ++ word = text' ++ " " ++ word') :
    text = text' ∧ word = word' := by
  have hlist := congrArg String.toList h
  simp only [String.toList_append, List.append_assoc] at hlist
  obtain ⟨htext, hword⟩ := append_cons_inj_of_not_mem hword.1 hword'.1 hlist
  exact ⟨String.toList_inj.mp htext, String.toList_inj.mp hword⟩

namespace Complaint

/-- The first thing that a complaint about a word quotes is that word. -/
theorem exists_message_eq {c : Complaint} {word : String} (h : c.found? = some word) :
    ∃ before after, '\'' ∉ before.toList ∧ c.message = before ++ quoted word ++ after := by
  cases c with
  | emptyLine | noLabelBeforeColon | nothingAfterLabel | missingCondition | missingAction
  | missingColor | missingDirection | missingLabel => cases h
  | repeatedLabel name line =>
    cases h
    exact ⟨"label ", _, by decide, rfl⟩
  | notAnAction found keyword =>
    cases h
    exact ⟨"found ", _, by decide, by simp only [message, String.append_assoc]; rfl⟩
  | reservedLabel | invalidCondition | invalidColor | invalidDirection | invalidStatus
  | notAnInstruction | notOnThisLine =>
    cases h
    exact ⟨"", _, by decide, by simp only [message, String.append_assoc, String.empty_append]; rfl⟩

theorem message_repeatedLabel (name : String) (line : Nat) :
    (repeatedLabel name line).message =
      "label " ++ quoted name ++ " is already defined on line" ++ " " ++ toString (line + 1) := by
  simp only [message, String.append_assoc]
  rfl

theorem message_missingCondition (noun : String) :
    (missingCondition noun).message = noun ++ " is" ++ " " ++ "missing" := by
  simp only [message, String.append_assoc]
  rfl

/-- Only one complaint says that a label is defined already. Its message ends
in the number of a line, and what comes before that tells the label. -/
theorem eq_repeatedLabel {c : Complaint} {name : String} {m : Nat}
    (h : c.message = "label " ++ quoted name ++ s!" is already defined on line {m}") :
    ∃ line, c = .repeatedLabel name line ∧ m = line + 1 := by
  have hlast : s!" is already defined on line {m}" =
      " is already defined on line" ++ " " ++ toString m := by
    simp only [String.append_assoc]
    rfl
  rw [hlast, ← String.append_assoc, ← String.append_assoc] at h
  have hfirst : c.message.toList.take 7 = "label '".toList := by
    rw [h, quoted]
    simp only [String.toList_append, List.append_assoc]
    rfl
  cases c with
  | repeatedLabel name' line =>
    rw [message_repeatedLabel] at h
    obtain ⟨htext, hm⟩ := append_word_inj (isWord_toString _) (isWord_toString _) h
    obtain rfl := toString_injective hm
    obtain rfl : name' = name := by
      simpa [quoted, String.append_right_inj, String.append_left_inj] using htext
    exact ⟨line, rfl, rfl⟩
  | missingCondition noun =>
    -- the noun may be any text, but `missing` is no number
    rw [message_missingCondition] at h
    obtain ⟨-, hm⟩ := append_word_inj (by decide) (isWord_toString _) h
    have hdigit : 'm'.isDigit = true := isDigit_of_mem_toString (n := m) (hm ▸ by decide)
    cases hdigit
  | emptyLine | noLabelBeforeColon | nothingAfterLabel | missingAction | missingColor
  | missingDirection | missingLabel | notAnAction | reservedLabel | invalidCondition
  | invalidColor | invalidDirection | invalidStatus | notAnInstruction | notOnThisLine =>
    simp [message, quoted] at hfirst

end Complaint

/-! ## Where a word stands -/

/-- The next word is the token at the position of the reader. -/
theorem Words.Leads.getElem?_index {tokens : List Token} {left : Words}
    (h : (Words.ofTokens tokens).Leads left) : tokens[left.index]? = left.rest.head? := by
  obtain ⟨taken, hrest, hindex⟩ := h
  obtain rfl : tokens = taken ++ left.rest := hrest
  obtain hindex : left.index = taken.length := by simpa [Words.ofTokens] using hindex
  rw [hindex, List.getElem?_append_right (Nat.le_refl _), Nat.sub_self, List.head?_eq_getElem?]

theorem Words.Leads.eq_of_rest_eq_nil {tokens : List Token} {left : Words}
    (h : (Words.ofTokens tokens).Leads left) (hrest : left.rest = []) :
    left = ⟨tokens.length, []⟩ := by
  obtain ⟨taken, htaken, hindex⟩ := h
  obtain ⟨index, rest⟩ := left
  obtain rfl : rest = [] := hrest
  obtain rfl : tokens = taken ++ [] := htaken
  obtain rfl : index = 0 + taken.length := hindex
  rw [List.append_nil, Nat.zero_add]

/-- A fault in its place has the position of the word that it is about. -/
theorem LineFault.IsAt.getElem?_word {labels : Labels} {tokens : List Token} {f : LineFault}
    {left : Words} {w : Nat} (h : f.IsAt labels left) (hleads : (Words.ofTokens tokens).Leads left)
    (hw : f.word = some w) :
    ∃ token, tokens[w]? = some token ∧ f.complaint.found? = some token.text := by
  rw [h.word] at hw
  obtain ⟨text, hpeek, rfl⟩ := Option.map_eq_some_iff.mp hw
  obtain ⟨token, hhead, rfl⟩ := Option.map_eq_some_iff.mp hpeek
  exact ⟨token, hleads.getElem?_index.trans hhead, h.found.trans hpeek⟩

/-! ## Where a label is declared -/

theorem lexLines_take (n : Nat) (texts : List (List Char)) :
    ∀ (line : Nat) (comment : Comment),
      lexLines line comment (texts.take n) = (lexLines line comment texts).take n := by
  induction texts generalizing n with
  | nil => simp [lexLines]
  | cons text texts ih =>
    intro line comment
    cases n with
    | zero => rfl
    | succ n => rw [List.take_succ_cons, lexLines, ih, lexLines, List.take_succ_cons]

/-- A line is read with the comment that the lines before it leave. -/
theorem getElem?_lexLines (n : Nat) (texts : List (List Char)) :
    ∀ (line : Nat) (comment : Comment), (lexLines line comment texts)[n]? =
      texts[n]?.map (lex (line + n) (commentAfter line comment (texts.take n))) := by
  induction texts generalizing n with
  | nil => simp [lexLines]
  | cons text texts ih =>
    intro line comment
    cases n with
    | zero => rfl
    | succ n =>
      rw [lexLines, List.getElem?_cons_succ, ih, List.getElem?_cons_succ, List.take_succ_cons,
        commentAfter, Nat.add_assoc, Nat.add_comm 1]

namespace Reader

variable {v : Vocabulary} {lineCount : Nat} {s s' : Reader} {texts : List (List Char)}
  {is : List (Instruction Goto)}

/-- A label that reading adds to the table is declared by the line that the
table has for it. -/
theorem Reads.declares (h : Reads v lineCount s texts is s') {name : String} {line : Nat}
    (hmem : (name, line) ∈ s'.labels) :
    (name, line) ∈ s.labels ∨ ∃ k tokens comment, line = s.line + k ∧
      (lexLines s.line s.comment texts)[k]? = some (tokens, comment) ∧
      labelOf? tokens = some name := by
  induction h with
  | nil s => exact .inl hmem
  | @cons s s₁ _ text _ _ _ first _ ih =>
    obtain ⟨hread, hline, hcomment⟩ := read_spec first
    rcases ih hmem with hmem | ⟨k, tokens, comment, hk, hget, hlabel⟩
    · rw [LineContext.instruction_labels hread] at hmem
      rcases List.mem_append.mp hmem with hmem | hmem
      · exact .inl hmem
      · obtain ⟨name', hname, heq⟩ := List.mem_map.mp hmem
        obtain ⟨rfl, rfl⟩ := Prod.mk.inj heq
        exact .inr ⟨0, _, _, rfl, rfl, Option.mem_toList.mp hname⟩
    · rw [hline, hcomment] at hget
      exact .inr ⟨k + 1, tokens, comment, by omega, hget, hlabel⟩

/-- A line that is rejected comes after lines that are read. -/
theorem Rejects.exists_reads {n : Nat} {f : LineFault} (h : Rejects v lineCount s texts n f) :
    ∃ is s' text, Reads v lineCount s (texts.take n) is s' ∧ texts[n]? = some text ∧
      s'.read v lineCount text = .error f := by
  induction h with
  | here h => exact ⟨[], _, _, .nil _, rfl, h⟩
  | later first _ ih =>
    obtain ⟨is, s', text, hreads, htext, hread⟩ := ih
    exact ⟨_ :: is, s', text, .cons first hreads, htext, hread⟩

theorem read_eq_error {text : List Char} {f : LineFault}
    (h : s.read v lineCount text = .error f) :
    LineContext.instruction ⟨v, s.line, lineCount⟩ s.labels (lex s.line s.comment text).1 =
      .error f := by
  unfold read at h
  rcases bind_eq_error.mp h with h | ⟨_, _, h⟩
  · exact h
  · cases h

end Reader

/-! ## The first line that is rejected -/

namespace Draft

open Reader

/-- The tokens of a line of a source. -/
def tokensAt (source : String) (n : Nat) : Option (List Token) :=
  (lexLines 0 .closed (sourceLines source))[n]?.map Prod.fst

/-- The lines before line `n` are read, and the reader of that line raises a
fault and holds the words `left`. -/
structure StopsAt (dialect : Dialect) (source : String) (n : Nat) (tokens : List Token)
    (f : LineFault) (left : Words) : Prop where
  lexed : tokensAt source n = some tokens
  raised : ∃ is s, Reads dialect.vocabulary (sourceLines source).length .start
      ((sourceLines source).take n) is s ∧
    (LineReader.instruction ⟨dialect.vocabulary, n, (sourceLines source).length⟩ s.labels).run
      (Words.ofTokens tokens) = .error f left

/-- A fault on line `n` of a source points at the word that it quotes. The line
has `tokens`, of which its reader still held `left`. -/
structure PointsAt (source : String) (n : Nat) (tokens : List Token) (left : Words)
    (fault : Fault) : Prop where
  line : fault.line = some n
  line_lt : n < (sourceLines source).length
  word : ∀ w, fault.word = some w → ∃ hw : w < tokens.length, ∃ before after,
    '\'' ∉ before.toList ∧ fault.detail = before ++ quoted tokens[w].text ++ after
  repeated : ∀ name m,
    fault.detail = "label " ++ quoted name ++ s!" is already defined on line {m}" →
      1 ≤ m ∧ m - 1 < n ∧ (tokensAt source (m - 1)).bind labelOf? = some name
  no_word : fault.word = none →
    tokens = [] ∨ tokens.head? = some .colon ∨ left = ⟨tokens.length, []⟩

variable {dialect : Dialect} {source : String} {n : Nat} {f : LineFault}

theorem exists_stopsAt (h : RejectsLine dialect source n f) :
    ∃ is s tokens left, Reads dialect.vocabulary (sourceLines source).length .start
        ((sourceLines source).take n) is s ∧
      StopsAt dialect source n tokens f left ∧ n < (sourceLines source).length ∧
      ((Words.ofTokens tokens).Leads left ∧ f.IsAt s.labels left ∨
        tokens.head? = some .colon ∧ f = ⟨.noLabelBeforeColon, none⟩) := by
  obtain ⟨is, s, text, hreads, htext, hread⟩ := h.exists_reads
  obtain ⟨hlt, -⟩ := List.getElem?_eq_some_iff.mp htext
  have hline : s.line = n := by
    rw [hreads.line_eq, List.length_take, Nat.min_eq_left (Nat.le_of_lt hlt)]
    exact Nat.zero_add n
  have hlexed : tokensAt source n = some (lex n s.comment text).1 := by
    rw [tokensAt, getElem?_lexLines, htext, hreads.comment_eq, Nat.zero_add]
    rfl
  have herror := read_eq_error hread
  rw [hline] at herror
  obtain ⟨left, hraised, hplace⟩ := LineReader.exists_left_of_error herror
  exact ⟨is, s, _, left, hreads, ⟨hlexed, is, s, hreads, hraised⟩, hlt, hplace⟩

/-- A label in the table after `n` lines is declared by the line that the table
has for it, one of those lines. -/
theorem declares_of_mem {is : List (Instruction Goto)} {s : Reader} {v : Vocabulary}
    {lineCount line : Nat} {name : String}
    (h : Reads v lineCount .start ((sourceLines source).take n) is s)
    (hmem : (name, line) ∈ s.labels) :
    line < n ∧ (tokensAt source line).bind labelOf? = some name := by
  rcases h.declares hmem with hmem | ⟨k, tokens, comment, hk, hget, hlabel⟩
  · cases hmem
  · obtain rfl : line = k := hk.trans (Nat.zero_add k)
    rw [lexLines_take, List.getElem?_take] at hget
    split at hget
    · next hlt =>
      have hlexed : tokensAt source line = some tokens := congrArg (Option.map Prod.fst) hget
      exact ⟨hlt, by rw [hlexed]; exact hlabel⟩
    · cases hget

/-- A syntax fault is about one line of the source. If it carries the position
of a word, then that word is what it quotes first; if it says that a label is
defined already, then an earlier line declares the label; and if it carries no
position, then no word was left, or the line begins with a colon. -/
theorem pointsAt_of_badSyntax {fault : Fault} (h : ofSource dialect source = .error fault)
    (hcode : fault.code = .badSyntax) :
    ∃ n tokens f left, StopsAt dialect source n tokens f left ∧ fault = f.toFault n ∧
      PointsAt source n tokens left fault := by
  rcases ofSource_eq_error_iff.mp h with ⟨n, f, hrejects, rfl⟩ | ⟨_, _, _, -, -, rfl⟩
  · obtain ⟨is, s, tokens, left, hreads, hstops, hlt, hplace⟩ := exists_stopsAt hrejects
    refine ⟨n, tokens, f, left, hstops, rfl, ⟨rfl, hlt, ?_, ?_, ?_⟩⟩
    · intro w hw
      rcases hplace with ⟨hleads, hat⟩ | ⟨-, rfl⟩
      · obtain ⟨token, hget, hfound⟩ := hat.getElem?_word hleads hw
        obtain ⟨hlen, rfl⟩ := List.getElem?_eq_some_iff.mp hget
        exact ⟨hlen, Complaint.exists_message_eq hfound⟩
      · cases hw
    · intro name m hdetail
      obtain ⟨line, hcomplaint, rfl⟩ := Complaint.eq_repeatedLabel hdetail
      rcases hplace with ⟨-, hat⟩ | ⟨-, rfl⟩
      · obtain ⟨before, after, hlabels, -⟩ :=
          List.lookup_eq_some_iff.mp (hat.declared name line hcomplaint)
        exact ⟨Nat.le_add_left 1 line, declares_of_mem hreads (by simp [hlabels])⟩
      · cases hcomplaint
    · intro hword
      rcases hplace with ⟨hleads, hat⟩ | ⟨hcolon, -⟩
      · have hpeek : left.peek? = none := Option.map_eq_none_iff.mp (hat.word.symm.trans hword)
        exact .inr (.inr (hleads.eq_of_rest_eq_nil (Words.peek?_eq_none_iff.mp hpeek)))
      · exact .inr (.inl hcolon)
  · cases hcode

/-- A label that is declared again, after a comment that reaches over a line
end. Then a color that is missing: no word is left. -/
theorem pointsAt_of_badSyntax_two_sources :
    (ofSource .palette "/* a\n*/ a: up\na: left" =
        .error ⟨.badSyntax, some 2, some 0, "label 'a' is already defined on line 2"⟩ ∧
      (tokensAt "/* a\n*/ a: up\na: left" 1).bind labelOf? = some "a") ∧
    ofSource .palette "up\nif white write" =
        .error ⟨.badSyntax, some 1, none, "color is missing"⟩ ∧
      ∃ f, StopsAt .palette "up\nif white write" 1
        [.word "if", .word "white", .word "write"] f ⟨3, []⟩ := by
  have hrepeated : ofSource .palette "/* a\n*/ a: up\na: left" =
      .error ⟨.badSyntax, some 2, some 0, "label 'a' is already defined on line 2"⟩ := rfl
  have hmissing : ofSource .palette "up\nif white write" =
      .error ⟨.badSyntax, some 1, none, "color is missing"⟩ := rfl
  refine ⟨⟨hrepeated, ?_⟩, hmissing, ?_⟩
  · obtain ⟨n, tokens, f, left, -, -, hpoints⟩ := pointsAt_of_badSyntax hrepeated rfl
    exact (hpoints.repeated "a" 2 rfl).2.2
  · obtain ⟨n, tokens, f, left, hstops, -, hpoints⟩ := pointsAt_of_badSyntax hmissing rfl
    obtain rfl : 1 = n := Option.some.inj hpoints.line
    obtain rfl : _ = tokens := Option.some.inj hstops.lexed
    rcases hpoints.no_word rfl with hempty | hcolon | rfl
    · cases hempty
    · cases hcolon
    · exact ⟨f, hstops⟩

end Draft

end PixelTurtle
