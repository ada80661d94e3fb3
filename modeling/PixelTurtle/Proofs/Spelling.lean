/-
PixelTurtle.Proofs.Spelling — tokens that are written down with spaces between
them are read back.

A word that the lexer gives is legible (`Token.Legible`): it holds no separator
and no colon, and no comment begins in it. What is left of a line when its
comments are replaced by spaces begins no comment, wherever the comments stood
(`Stripped.commentFree`), and neither do its words. So nothing in a text made of
legible tokens is taken for a comment, and nothing is cut but the spaces between
them.

* `legible_of_mem_lex` — the tokens of a line are legible.
* `lex_written` — legible tokens are read back.
* `lex_written_lex` — the two together, and the tokens of a line read back.
-/
import PixelTurtle.Proofs.Comments

namespace PixelTurtle

/-! ## Legible tokens -/

namespace Token

/-- A colon, or a word with at least one character, none that ends a word and no
two that begin a comment. -/
def Legible : Token → Prop
  | colon => True
  | word text => text ≠ "" ∧ (∀ c ∈ [' ', '\t', '\r', subLineBreak, ':'], c ∉ text.toList) ∧
      CommentFree text.toList

/-- Tokens as they are written, with a single space between them. -/
def written (tokens : List Token) : List Char :=
  (" ".intercalate (tokens.map text)).toList

@[simp] theorem written_nil : written [] = [] := by
  simp [written]

@[simp] theorem written_singleton (t : Token) : written [t] = t.text.toList := by
  simp [written]

theorem written_cons_cons (t t' : Token) (rest : List Token) :
    written (t :: t' :: rest) = t.text.toList ++ ' ' :: written (t' :: rest) := by
  simp [written, String.intercalate_cons_cons]

end Token

theorem isLetter_iff {c : Char} :
    IsLetter c ↔ c ∉ [' ', '\t', '\r', subLineBreak, ':'] := by
  simp [IsLetter, isSeparator, and_assoc]

/-- The characters of a legible word are letters. -/
theorem Token.Legible.letters {text : String} (h : (Token.word text).Legible) :
    ∀ c ∈ text.toList, IsLetter c :=
  fun c hc => isLetter_iff.mpr fun hmem => h.2.1 c hmem hc

/-! ## Texts without comments -/

theorem CommentFree.mono {part text : List Char} (h : CommentFree text) (hpart : part <:+: text) :
    CommentFree part :=
  ⟨fun hsign => h.1 (hsign.trans hpart), fun hsign => h.2 (hsign.trans hpart)⟩

/-- No comment begins across a space. -/
theorem commentFree_append_space {before behind : List Char} (hbefore : CommentFree before)
    (hbehind : CommentFree behind) : CommentFree (before ++ ' ' :: behind) := by
  rw [commentFree_iff] at hbefore hbehind ⊢
  rw [List.isChain_append, List.isChain_cons]
  refine ⟨hbefore, ⟨fun c _ hsign => absurd hsign.1 (by decide), hbehind⟩, fun c _ d hd hsign => ?_⟩
  obtain rfl : ' ' = d := by simpa using hd
  rcases hsign.2 with heq | heq <;> exact absurd heq (by decide)

/-- What is left of a line begins no comment. -/
theorem Stripped.commentFree {line : Nat} {comment after : Comment} {text left : List Char}
    (h : Stripped line comment text left after) : CommentFree left := by
  induction h with
  | free free => exact free
  | remark first _ _ _ ih =>
    exact commentFree_append_space (first.mono (List.prefix_append _ _).isInfix) ih
  | opens first rest ih =>
    obtain ⟨left, rfl⟩ := rest.exists_cons
    refine commentFree_append_space (first.mono (List.prefix_append _ _).isInfix) ?_
    exact ih.mono (List.suffix_cons _ _).isInfix
  | closes _ _ ih =>
    have hnil : CommentFree [] := by decide
    exact commentFree_append_space hnil ih
  | staysOpen => decide

theorem legible_of_mem_wordOf {word : List Char} (hletters : ∀ c ∈ word, IsLetter c)
    (hfree : CommentFree word) : ∀ t ∈ wordOf word, t.Legible := by
  cases word with
  | nil => simp [wordOf]
  | cons c rest =>
    intro t ht
    obtain rfl : t = .word (String.ofList (c :: rest)) := by simpa [wordOf] using ht
    refine ⟨by simp, fun d hd hmem => ?_, by rwa [String.toList_ofList]⟩
    rw [String.toList_ofList] at hmem
    exact isLetter_iff.mp (hletters d hmem) hd

/-- A text that begins no comment splits into legible tokens. The induction is on
the text behind the letters of the word that was begun. -/
theorem legible_of_mem_splitTokens {word text : List Char} (hletters : ∀ c ∈ word, IsLetter c)
    (hfree : CommentFree (word ++ text)) : ∀ t ∈ splitTokens (word ++ text), t.Legible := by
  induction text generalizing word with
  | nil =>
    rw [List.append_nil] at hfree ⊢
    rw [splitTokens_of_letters hletters]
    exact legible_of_mem_wordOf hletters hfree
  | cons c rest ih =>
    have hword := legible_of_mem_wordOf hletters (hfree.mono (List.prefix_append _ _).isInfix)
    have hrest : CommentFree rest :=
      hfree.mono ((List.suffix_cons c rest).trans (List.suffix_append _ _)).isInfix
    have hnone : ∀ d ∈ ([] : List Char), IsLetter d := by simp
    have hothers := ih hnone hrest
    by_cases hcolon : c = ':'
    · subst hcolon
      rw [splitTokens_append_colon hletters]
      exact List.forall_mem_append.mpr ⟨hword, List.forall_mem_cons.mpr ⟨trivial, hothers⟩⟩
    · by_cases hseparator : isSeparator c = true
      · rw [splitTokens_append_separator _ _ hseparator, splitTokens_of_letters hletters]
        exact List.forall_mem_append.mpr ⟨hword, hothers⟩
      · have hletter : IsLetter c := ⟨by simpa using hseparator, hcolon⟩
        have hgrown : ∀ d ∈ word ++ [c], IsLetter d :=
          List.forall_mem_append.mpr ⟨hletters, List.forall_mem_singleton.mpr hletter⟩
        rw [List.append_cons] at hfree ⊢
        exact ih hgrown hfree

/-! ## Writing and reading -/

theorem legible_of_mem_lex (line : Nat) (comment : Comment) (text : List Char) :
    ∀ t ∈ (lex line comment text).1, t.Legible := by
  obtain ⟨left, after, hstripped⟩ := exists_stripped line comment text
  have hnone : ∀ c ∈ ([] : List Char), IsLetter c := by simp
  rw [hstripped.lex_eq]
  exact legible_of_mem_splitTokens hnone hstripped.commentFree

theorem Token.Legible.commentFree {t : Token} (h : t.Legible) : CommentFree t.text.toList := by
  cases t with
  | colon => decide
  | word text => exact h.2.2

theorem Token.Legible.splitTokens_eq {t : Token} (h : t.Legible) :
    splitTokens t.text.toList = [t] := by
  cases t with
  | colon => rfl
  | word text =>
    have hne : text.toList ≠ [] := fun hnil => h.1 (String.toList_eq_nil_iff.mp hnil)
    obtain ⟨c, rest, htext⟩ := List.exists_cons_of_ne_nil hne
    have hword : wordOf text.toList = [.word (String.ofList text.toList)] := by rw [htext]; rfl
    rw [Token.text, splitTokens_of_letters h.letters, hword, String.ofList_toList]

/-- Legible tokens are told apart by the spaces between them, and make up no
comment. -/
theorem written_spec {tokens : List Token} (h : ∀ t ∈ tokens, t.Legible) :
    CommentFree (Token.written tokens) ∧ splitTokens (Token.written tokens) = tokens := by
  induction tokens with
  | nil =>
    rw [Token.written_nil]
    exact ⟨by decide, rfl⟩
  | cons t rest ih =>
    obtain ⟨ht, hrest⟩ := List.forall_mem_cons.mp h
    cases rest with
    | nil =>
      rw [Token.written_singleton]
      exact ⟨ht.commentFree, ht.splitTokens_eq⟩
    | cons t' rest =>
      obtain ⟨hfree, hsplit⟩ := ih hrest
      rw [Token.written_cons_cons]
      refine ⟨commentFree_append_space ht.commentFree hfree, ?_⟩
      rw [splitTokens_space, ht.splitTokens_eq, hsplit]
      rfl

theorem lex_written (line : Nat) {tokens : List Token} (h : ∀ t ∈ tokens, t.Legible) :
    lex line .closed (Token.written tokens) = (tokens, .closed) := by
  obtain ⟨hfree, hsplit⟩ := written_spec h
  rw [(Stripped.free hfree).lex_eq, hsplit]

/-- The tokens of a line are legible, and they are read back when they are
written with spaces between them. So are all tokens that are legible. No comment
is open behind them. -/
theorem lex_written_lex :
    (∀ line comment text line',
      (∀ t ∈ (lex line comment text).1, t.Legible) ∧
        lex line' .closed (Token.written (lex line comment text).1) =
          ((lex line comment text).1, .closed)) ∧
      ∀ line tokens, (∀ t ∈ tokens, t.Legible) →
        lex line .closed (Token.written tokens) = (tokens, .closed) := by
  refine ⟨fun line comment text line' => ?_, fun line tokens => lex_written line⟩
  have hlegible := legible_of_mem_lex line comment text
  exact ⟨hlegible, lex_written line' hlegible⟩

/-- Words that almost begin and end a comment, next to a colon. -/
theorem lex_written_lex_slashes :
    (∀ t ∈ [.word "a/", .colon, .word "*/"], Token.Legible t) ∧
      Token.written [.word "a/", .colon, .word "*/"] = "a/ : */".toList ∧
      lex 0 .closed "a/ : */".toList = ([.word "a/", .colon, .word "*/"], .closed) := by
  have hlegible : ∀ t ∈ [.word "a/", .colon, .word "*/"], Token.Legible t := by
    refine List.forall_mem_cons.mpr ⟨⟨by decide, by simp [subLineBreak], by decide⟩, ?_⟩
    refine List.forall_mem_cons.mpr ⟨trivial, ?_⟩
    exact List.forall_mem_singleton.mpr ⟨by decide, by simp [subLineBreak], by decide⟩
  have hwritten : Token.written [.word "a/", .colon, .word "*/"] = "a/ : */".toList := rfl
  have hlex := lex_written_lex.2 0 _ hlegible
  rw [hwritten] at hlex
  exact ⟨hlegible, hwritten, hlex⟩

end PixelTurtle
