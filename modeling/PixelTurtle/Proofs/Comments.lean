/-
PixelTurtle.Proofs.Comments — a line is read as if every comment in it were one
space.

The lexer goes through a line once. It can be described in two passes as well:
`Stripped` says what is left of a line when each comment is replaced by a space,
and `splitTokens` cuts that at separators and colons. Where a comment begins and
where it ends is said by the first occurrence of two characters next to each
other, so that `/*/` opens a comment and does not close it, and `//*` is not the
sign of a block comment.

* `commentFree_iff` — a text has no sign of a comment in it if no two of its
  neighbors are one.
* `scan_code_append` — up to the first sign of a comment the lexer splits.
* `exists_stripped` — every line can be stripped.
* `lex_eq_split` — what is left of a line, cut into tokens, is what the lexer
  reads, and the comment that stays open is the one it leaves.
-/
import PixelTurtle.Token
import Mathlib.Data.List.Chain

namespace PixelTurtle

/-! ## Two passes -/

/-- Neither sign that begins a comment occurs in a text. -/
def CommentFree (text : List Char) : Prop :=
  ¬ ['/', '/'] <:+: text ∧ ¬ ['/', '*'] <:+: text

instance : DecidablePred CommentFree :=
  fun text => inferInstanceAs (Decidable (¬ ['/', '/'] <:+: text ∧ ¬ ['/', '*'] <:+: text))

/-- What is left of line `line` when every comment is replaced by a space, read
with a comment that is open before it, and the comment that is open behind it.

The text before a sign is free of comments together with the first character of
the sign: there is no sign before it, and none that overlaps it. -/
inductive Stripped (line : Nat) : Comment → List Char → List Char → Comment → Prop where
  | free {text : List Char} (free : CommentFree text) : Stripped line .closed text text .closed
  /-- A `//` comment goes up to a vertical tab or the end of the line. -/
  | remark {before remark behind left : List Char} {after : Comment}
      (first : CommentFree (before ++ ['/'])) (within : subLineBreak ∉ remark)
      (ends : behind = [] ∨ behind.head? = some subLineBreak)
      (rest : Stripped line .closed behind left after) :
      Stripped line .closed (before ++ '/' :: '/' :: (remark ++ behind)) (before ++ ' ' :: left)
        after
  /-- A block comment is opened on this line. -/
  | opens {before behind left : List Char} {after : Comment}
      (first : CommentFree (before ++ ['/']))
      (rest : Stripped line (.opened line) behind left after) :
      Stripped line .closed (before ++ '/' :: '*' :: behind) (before ++ left) after
  /-- An open comment goes up to the first `*/`. -/
  | closes {opening : Nat} {inside behind left : List Char} {after : Comment}
      (first : ¬ ['*', '/'] <:+: inside) (rest : Stripped line .closed behind left after) :
      Stripped line (.opened opening) (inside ++ '*' :: '/' :: behind) (' ' :: left) after
  /-- It goes on to the end of the line if there is none. -/
  | staysOpen {opening : Nat} {inside : List Char} (never : ¬ ['*', '/'] <:+: inside) :
      Stripped line (.opened opening) inside [' '] (.opened opening)

/-- A word, unless there are no letters. -/
def wordOf : List Char → List Token
  | [] => []
  | text => [.word (String.ofList text)]

/-- The tokens of a piece without separators: the words between its colons, and
the colons. -/
def pieceTokens (piece : List Char) : List Token :=
  [Token.colon].intercalate ((piece.splitOn ':').map wordOf)

/-- The tokens of a text without comments: those of the pieces between its
separators. -/
def splitTokens (text : List Char) : List Token :=
  (text.splitOnP isSeparator).flatMap pieceTokens

/-! ## Neighbors -/

/-- Two characters begin a comment. -/
def OpensComment (a b : Char) : Prop :=
  a = '/' ∧ (b = '/' ∨ b = '*')

/-- Two characters are nowhere next to each other. -/
theorem not_infix_pair_iff {a b : Char} {text : List Char} :
    ¬ [a, b] <:+: text ↔ text.IsChain fun x y => ¬ (x = a ∧ y = b) := by
  rw [List.isChain_iff_forall_rel_of_append_cons_cons]
  constructor
  · rintro h x y before behind rfl ⟨rfl, rfl⟩
    exact h ⟨before, behind, by simp⟩
  · rintro h ⟨before, behind, htext⟩
    have hsplit : text = before ++ a :: b :: behind := by simp [← htext]
    exact h hsplit ⟨rfl, rfl⟩

theorem commentFree_iff {text : List Char} :
    CommentFree text ↔ text.IsChain fun a b => ¬ OpensComment a b := by
  unfold CommentFree
  simp only [not_infix_pair_iff, List.isChain_iff_forall_rel_of_append_cons_cons]
  constructor
  · rintro ⟨hslash, hstar⟩ a b before behind htext ⟨ha, hb | hb⟩
    · exact hslash htext ⟨ha, hb⟩
    · exact hstar htext ⟨ha, hb⟩
  · intro h
    constructor
    · rintro a b before behind htext ⟨ha, hb⟩
      exact h htext ⟨ha, .inl hb⟩
    · rintro a b before behind htext ⟨ha, hb⟩
      exact h htext ⟨ha, .inr hb⟩

/-- Neighbors are related everywhere, or there are first ones that are not. -/
theorem isChain_or_first {R : Char → Char → Prop} (text : List Char) :
    text.IsChain R ∨ ∃ before a b behind, text = before ++ a :: b :: behind ∧ ¬ R a b ∧
      (before ++ [a]).IsChain R := by
  induction text with
  | nil => exact .inl .nil
  | cons c rest ih =>
    cases rest with
    | nil => exact .inl (.singleton c)
    | cons d rest =>
      by_cases hcd : R c d
      · rcases ih with hchain | ⟨before, a, b, behind, htext, hab, hbefore⟩
        · exact .inl (List.isChain_cons_cons.mpr ⟨hcd, hchain⟩)
        · refine .inr ⟨c :: before, a, b, behind, by rw [htext]; rfl, hab, ?_⟩
          cases before with
          | nil =>
            obtain rfl : d = a := by simpa using (List.cons.inj htext).1
            simpa using hcd
          | cons e before =>
            obtain rfl : d = e := by simpa using (List.cons.inj htext).1
            exact List.isChain_cons_cons.mpr ⟨hcd, hbefore⟩
      · exact .inr ⟨[], c, d, rest, rfl, hcd, by simp⟩

/-! ## Cutting a text into tokens -/

theorem flushWord_eq (pending : List Char) (tokens : List Token) :
    flushWord pending tokens = wordOf pending.reverse ++ tokens := by
  cases hp : pending.reverse with
  | nil =>
    obtain rfl : pending = [] := by simpa using hp
    rfl
  | cons c rest =>
    obtain ⟨d, others, rfl⟩ : ∃ d others, pending = d :: others :=
      List.exists_cons_of_ne_nil (by rintro rfl; simp at hp)
    rw [flushWord, hp]
    · rfl
    · simp

/-- The characters of a word. -/
def IsLetter (c : Char) : Prop :=
  isSeparator c = false ∧ c ≠ ':'

theorem splitTokens_append_separator (before behind : List Char) {c : Char}
    (h : isSeparator c = true) :
    splitTokens (before ++ c :: behind) = splitTokens before ++ splitTokens behind := by
  rw [splitTokens, List.splitOnP_append_cons _ _ h, List.flatMap_append]
  rfl

theorem pieceTokens_of_letters {word : List Char} (h : ∀ c ∈ word, IsLetter c) :
    pieceTokens word = wordOf word := by
  have hcolon : ∀ c ∈ word, (c == ':') = false := fun c hc => by simpa using (h c hc).2
  rw [pieceTokens, List.splitOn_eq_splitOnP, List.splitOnP_eq_singleton hcolon]
  simp

theorem splitTokens_of_letters {word : List Char} (h : ∀ c ∈ word, IsLetter c) :
    splitTokens word = wordOf word := by
  rw [splitTokens, List.splitOnP_eq_singleton fun c hc => (h c hc).1]
  simp [pieceTokens_of_letters h]

theorem pieceTokens_append_colon {word piece : List Char} (h : ∀ c ∈ word, IsLetter c) :
    pieceTokens (word ++ ':' :: piece) = wordOf word ++ .colon :: pieceTokens piece := by
  have hcolon : ∀ c ∈ word, (c == ':') = false := fun c hc => by simpa using (h c hc).2
  obtain ⟨first, others, hpiece⟩ := List.exists_cons_of_ne_nil
    (show piece.splitOn ':' ≠ [] from List.splitOn_ne_nil _ _)
  rw [pieceTokens, pieceTokens, hpiece]
  rw [List.splitOn_eq_splitOnP] at hpiece ⊢
  rw [List.splitOnP_append_cons_of_forall_mem hcolon ':' (by simp), hpiece]
  simp [List.intercalate_cons_cons]

/-- Before the first separator a text may begin with anything else. -/
theorem splitOnP_append_of_forall_mem {p : Char → Bool} {xs : List Char}
    (h : ∀ x ∈ xs, p x = false) (ys : List Char) :
    (xs ++ ys).splitOnP p = (ys.splitOnP p).modifyHead (xs ++ ·) := by
  induction xs with
  | nil => exact (List.modifyHead_id ▸ rfl)
  | cons x xs ih =>
    obtain ⟨hx, hxs⟩ := List.forall_mem_cons.mp h
    rw [List.cons_append, List.splitOnP_cons_eq_if_modifyHead, hx, ih hxs,
      List.modifyHead_modifyHead]
    rfl

theorem splitTokens_append_colon {word : List Char} (h : ∀ c ∈ word, IsLetter c)
    (behind : List Char) :
    splitTokens (word ++ ':' :: behind) = wordOf word ++ .colon :: splitTokens behind := by
  have hpiece : ∀ c ∈ word ++ [':'], isSeparator c = false := by
    intro c hc
    rcases List.mem_append.mp hc with hc | hc
    · exact (h c hc).1
    · obtain rfl : c = ':' := by simpa using hc
      rfl
  obtain ⟨first, others, hbehind⟩ := List.exists_cons_of_ne_nil
    (List.splitOnP_ne_nil isSeparator behind)
  rw [List.append_cons, splitTokens, splitOnP_append_of_forall_mem hpiece, splitTokens, hbehind]
  simp [pieceTokens_append_colon h]

/-- A space separates what stands before it from what stands behind. -/
theorem splitTokens_space (before behind : List Char) :
    splitTokens (before ++ ' ' :: behind) = splitTokens before ++ splitTokens behind :=
  splitTokens_append_separator _ _ rfl

/-! ## The lexer outside of a comment -/

/-- A character that begins no comment ends the pending word or goes into it. -/
theorem scan_code_cons (line : Nat) (pending : List Char) {c : Char} {rest : List Char}
    (h : ∀ d ∈ rest.head?, ¬ OpensComment c d) :
    scan line .code pending (c :: rest) =
      if c = ':' then
        (flushWord pending (.colon :: (scan line .code [] rest).1), (scan line .code [] rest).2)
      else if isSeparator c then
        (flushWord pending (scan line .code [] rest).1, (scan line .code [] rest).2)
      else scan line .code (c :: pending) rest := by
  have hslash : ∀ others, c = '/' → rest = '/' :: others → False := by
    rintro others rfl rfl
    exact h '/' rfl ⟨rfl, .inl rfl⟩
  have hstar : ∀ others, c = '/' → rest = '*' :: others → False := by
    rintro others rfl rfl
    exact h '*' rfl ⟨rfl, .inr rfl⟩
  rw [scan]
  · exact hslash
  · exact hstar

/-- Up to where a comment begins, or to the end of the line, the lexer does
nothing but split the text. The pending word belongs to it. -/
theorem scan_code_append {line : Nat} {before behind : List Char} {tokens : List Token}
    {comment : Comment}
    (hbehind : ∀ pending, scan line .code pending behind = (flushWord pending tokens, comment))
    (hfree : CommentFree (before ++ behind.take 1)) (pending : List Char)
    (hpending : ∀ c ∈ pending, IsLetter c) :
    scan line .code pending (before ++ behind) =
      (splitTokens (pending.reverse ++ before) ++ tokens, comment) := by
  rw [commentFree_iff] at hfree
  induction before generalizing pending with
  | nil =>
    have hword : ∀ c ∈ pending.reverse, IsLetter c := by simpa using hpending
    rw [List.nil_append, hbehind, flushWord_eq, List.append_nil, splitTokens_of_letters hword]
  | cons c rest ih =>
    rw [List.cons_append, List.isChain_cons] at hfree
    obtain ⟨hsign, hrest⟩ := hfree
    have hhead : (rest ++ behind).head? = (rest ++ behind.take 1).head? := by
      cases rest <;> cases behind <;> rfl
    have hword : ∀ d ∈ pending.reverse, IsLetter d := by simpa using hpending
    rw [List.cons_append, scan_code_cons line pending (hhead ▸ hsign)]
    split
    · next hcolon =>
      rw [ih hrest [] (by simp), hcolon, splitTokens_append_colon hword, flushWord_eq]
      simp
    · next hcolon =>
      split
      · next hseparator =>
        rw [ih hrest [] (by simp), splitTokens_append_separator _ _ hseparator,
          splitTokens_of_letters hword, flushWord_eq]
        simp
      · next hseparator =>
        have hletter : IsLetter c := ⟨by simpa using hseparator, hcolon⟩
        rw [ih hrest _ (List.forall_mem_cons.mpr ⟨hletter, hpending⟩)]
        simp

/-- A text without comments is read as the tokens it splits into. -/
theorem scan_code_of_free (line : Nat) {text : List Char} (hfree : CommentFree text) :
    scan line .code [] text = (splitTokens text, .closed) := by
  have hscan : scan line .code [] (text ++ []) = (splitTokens text ++ [], .closed) :=
    scan_code_append (fun _ => rfl) (by simpa using hfree) [] (by simp)
  simpa using hscan

/-- What stands before a comment is split, and the comment separates it from
what stands behind. -/
theorem scan_code_remark (line : Nat) {before rest : List Char}
    (hfirst : CommentFree (before ++ ['/'])) :
    scan line .code [] (before ++ '/' :: '/' :: rest) =
      (splitTokens before ++ (scan line .lineComment [] rest).1,
        (scan line .lineComment [] rest).2) :=
  scan_code_append (fun _ => by rw [scan]) hfirst [] (by simp)

theorem scan_code_block (line : Nat) {before rest : List Char}
    (hfirst : CommentFree (before ++ ['/'])) :
    scan line .code [] (before ++ '/' :: '*' :: rest) =
      (splitTokens before ++ (scan line (.block line) [] rest).1,
        (scan line (.block line) [] rest).2) :=
  scan_code_append (fun _ => by rw [scan]) hfirst [] (by simp)

/-! ## The lexer in a comment -/

/-- A `//` comment ends with its sub-line. -/
theorem scan_lineComment (line : Nat) {remark behind : List Char} (hwithin : subLineBreak ∉ remark)
    (hends : behind = [] ∨ behind.head? = some subLineBreak) :
    scan line .lineComment [] (remark ++ behind) = scan line .code [] behind := by
  induction remark with
  | nil =>
    cases behind with
    | nil => rfl
    | cons c rest =>
      obtain rfl : c = subLineBreak := by simpa using hends
      simp [scan, subLineBreak, isSeparator, flushWord]
  | cons c rest ih =>
    obtain ⟨hc, hrest⟩ : subLineBreak ≠ c ∧ subLineBreak ∉ rest := by simpa using hwithin
    rw [List.cons_append, scan, if_neg hc.symm]
    exact ih hrest

/-- A character that does not end a block comment is passed over. -/
theorem scan_block_cons (line opening : Nat) (pending : List Char) {c : Char} {rest : List Char}
    (h : ∀ d ∈ rest.head?, ¬ (c = '*' ∧ d = '/')) :
    scan line (.block opening) pending (c :: rest) = scan line (.block opening) pending rest := by
  rw [scan]
  rintro others rfl rfl
  exact h '/' rfl ⟨rfl, rfl⟩

/-- The inside of a block comment is passed over as long as no `*/` begins in it. -/
theorem scan_block_append (line opening : Nat) {inside behind : List Char}
    (hinside : ¬ ['*', '/'] <:+: inside) (hbehind : behind.head? ≠ some '/') :
    scan line (.block opening) [] (inside ++ behind) = scan line (.block opening) [] behind := by
  rw [not_infix_pair_iff] at hinside
  induction inside with
  | nil => rfl
  | cons c rest ih =>
    rw [List.isChain_cons] at hinside
    obtain ⟨hnext, hrest⟩ := hinside
    rw [List.cons_append, scan_block_cons]
    · exact ih hrest
    · cases rest with
      | nil =>
        rintro d hd ⟨-, rfl⟩
        exact hbehind hd
      | cons d rest => exact hnext

/-! ## Stripped lines -/

namespace Stripped

variable {line : Nat} {comment after : Comment} {text left : List Char}

/-- Where a comment is open before a line, a space is left of it. -/
theorem exists_cons {opening : Nat} (h : Stripped line (.opened opening) text left after) :
    ∃ rest, left = ' ' :: rest := by
  cases h with
  | closes => exact ⟨_, rfl⟩
  | staysOpen => exact ⟨[], rfl⟩

/-- The lexer reads what is left. -/
theorem scan_eq (h : Stripped line comment text left after) :
    scan line (.ofComment comment) [] text = (splitTokens left, after) := by
  induction h with
  | free free => exact scan_code_of_free line free
  | remark first within ends _ ih =>
    simp only [LexMode.ofComment] at ih ⊢
    rw [scan_code_remark line first, scan_lineComment line within ends, ih, splitTokens_space]
  | opens first rest ih =>
    simp only [LexMode.ofComment] at ih ⊢
    obtain ⟨left, rfl⟩ := rest.exists_cons
    have hleft : splitTokens (' ' :: left) = splitTokens left := splitTokens_space [] left
    rw [scan_code_block line first, ih, splitTokens_space, hleft]
  | @closes _ _ _ left _ first _ ih =>
    simp only [LexMode.ofComment] at ih ⊢
    have hleft : splitTokens (' ' :: left) = splitTokens left := splitTokens_space [] left
    rw [scan_block_append _ _ first (by simp), scan, ih, hleft]
  | @staysOpen opening inside never =>
    have hpassed : scan line (.block opening) [] (inside ++ []) = ([], .opened opening) :=
      scan_block_append line opening never (by simp)
    rwa [List.append_nil] at hpassed

theorem lex_eq (h : Stripped line comment text left after) :
    lex line comment text = (splitTokens left, after) :=
  h.scan_eq

end Stripped

/-- The first sub-line of a text, and what stands behind it. -/
theorem exists_subLine (text : List Char) :
    ∃ subLine behind, text = subLine ++ behind ∧ subLineBreak ∉ subLine ∧
      (behind = [] ∨ behind.head? = some subLineBreak) := by
  induction text with
  | nil => exact ⟨[], [], rfl, by simp, .inl rfl⟩
  | cons c rest ih =>
    by_cases hc : c = subLineBreak
    · exact ⟨[], c :: rest, rfl, by simp, .inr (by simp [hc])⟩
    · obtain ⟨subLine, behind, rfl, hwithin, hends⟩ := ih
      refine ⟨c :: subLine, behind, rfl, ?_, hends⟩
      rw [List.mem_cons, not_or]
      exact ⟨fun heq => hc heq.symm, hwithin⟩

/-- Every line can be stripped: where its first comment ends, what is left of it
is shorter. -/
theorem exists_stripped (line : Nat) (comment : Comment) (text : List Char) :
    ∃ left after, Stripped line comment text left after := by
  induction hlength : text.length using Nat.strong_induction_on generalizing comment text with
  | _ length ih =>
    cases comment with
    | opened opening =>
      rcases isChain_or_first (R := fun a b => ¬ (a = '*' ∧ b = '/')) text with
        hnever | ⟨inside, a, b, behind, rfl, hsign, hfirst⟩
      · exact ⟨_, _, .staysOpen (not_infix_pair_iff.mpr hnever)⟩
      · obtain ⟨rfl, rfl⟩ := not_not.mp hsign
        obtain ⟨left, after, hrest⟩ := ih behind.length (by simp [← hlength]; omega) .closed
          behind rfl
        exact ⟨_, _, .closes (not_infix_pair_iff.mpr hfirst.left_of_append) hrest⟩
    | closed =>
      rcases isChain_or_first (R := fun a b => ¬ OpensComment a b) text with
        hfree | ⟨before, a, b, behind, rfl, hsign, hfirst⟩
      · exact ⟨_, _, .free (commentFree_iff.mpr hfree)⟩
      · rw [← commentFree_iff] at hfirst
        obtain ⟨rfl, rfl | rfl⟩ := not_not.mp hsign
        · obtain ⟨remark, behind, rfl, hwithin, hends⟩ := exists_subLine behind
          obtain ⟨left, after, hrest⟩ := ih behind.length (by simp [← hlength]; omega) .closed
            behind rfl
          exact ⟨_, _, .remark hfirst hwithin hends hrest⟩
        · obtain ⟨left, after, hrest⟩ := ih behind.length (by simp [← hlength]; omega)
            (.opened line) behind rfl
          exact ⟨_, _, .opens hfirst hrest⟩

/-! ## Lines -/

/-- A line has comments that can be replaced by spaces, and however that is done,
the tokens of what is left are those of the line. The comment that is open behind
it is the one that the line leaves open. -/
theorem lex_eq_split (line : Nat) (comment : Comment) (text : List Char) :
    (∃ left after, Stripped line comment text left after) ∧
      ∀ left after, Stripped line comment text left after →
        lex line comment text = (splitTokens left, after) :=
  ⟨exists_stripped line comment text, fun _ _ h => h.lex_eq⟩

/-- Signs that overlap: the first `*/` ends a comment of a line before, `/*/`
opens one and does not close it, and `//*` opens none. The last comment stays
open. -/
theorem lex_eq_split_overlapping :
    Stripped 4 (.opened 1) "x*/ a/*/:*/b//*c\x0bd:/ /*/".toList "  a b \x0bd:/  ".toList
        (.opened 4) ∧
      lex 4 (.opened 1) "x*/ a/*/:*/b//*c\x0bd:/ /*/".toList =
        ([.word "a", .word "b", .word "d", .colon, .word "/"], .opened 4) := by
  have hlast : Stripped 4 .closed ([subLineBreak, 'd', ':', '/', ' '] ++ ['/', '*', '/'])
      ([subLineBreak, 'd', ':', '/', ' '] ++ [' ']) (.opened 4) :=
    .opens (by decide) (.staysOpen (by decide))
  have hremark : Stripped 4 .closed (['b'] ++ '/' :: '/' :: (['*', 'c'] ++ _))
      (['b'] ++ ' ' :: _) (.opened 4) :=
    .remark (by decide) (by decide) (.inr rfl) hlast
  have hblock : Stripped 4 .closed ([' ', 'a'] ++ '/' :: '*' :: (['/', ':'] ++ '*' :: '/' :: _))
      ([' ', 'a'] ++ ' ' :: _) (.opened 4) :=
    .opens (by decide) (.closes (by decide) hremark)
  have hstripped : Stripped 4 (.opened 1) (['x'] ++ '*' :: '/' :: _) (' ' :: _) (.opened 4) :=
    .closes (by decide) hblock
  have hlex := (lex_eq_split 4 (.opened 1) _).2 _ _ hstripped
  exact ⟨hstripped, hlex.trans rfl⟩

end PixelTurtle
