/-
PixelTurtle.Proofs.BlankLines — a blank line can be inserted anywhere and changes
nothing but the numbers of the lines.

A line is blank when it yields no tokens and leaves the comment it is read in as
it was: white space, a comment of its own, or anything inside of a comment that
stays open. The argument follows a source with such a line through the phases:

* `Draft.sourceLines_insertLine` — the lines are those before and the new one.
* `Reader.Reads.renumber` — the other lines are read as before, on their new
  numbers. A line that goes on to where the new line is now goes on to it
  (`Goto.Shifts`).
* `Draft.exists_link_insert` — so are the linked lines, and from there on
  collapsing and folding make the two codes match.
* `Program.compile_insertLine` — the program is the one before with a
  placeholder inserted, and it runs the same.
-/
import Mathlib.Data.List.Forall2
import Mathlib.Data.List.InsertIdx
import PixelTurtle.Proofs.Rejection
import PixelTurtle.Proofs.Renumbering

namespace PixelTurtle

variable {k : Nat}

/-! ## Lines of a text -/

theorem Text.pieces_eq_splitOnP (separates : Char → Bool) (text : List Char) :
    pieces separates text = text.splitOnP separates := by
  induction text with
  | nil => rfl
  | cons c rest ih =>
    rw [List.splitOnP_cons_eq_if_modifyHead, pieces, ih]
    cases hrest : List.splitOnP separates rest with
    | nil => exact absurd hrest (List.splitOnP_ne_nil _ _)
    | cons piece others => rfl

theorem Text.not_mem_of_mem_pieces {separator : Char} {text piece : List Char}
    (h : piece ∈ pieces (· == separator) text) : separator ∉ piece := by
  induction text generalizing piece with
  | nil => simp_all [pieces]
  | cons c rest ih =>
    rw [pieces] at h
    split at h
    · rcases List.mem_cons.mp h with rfl | h
      · simp
      · exact ih h
    · next hc =>
      have hne : separator ≠ c := fun heq => hc (by simp [heq])
      split at h
      · next hnil => exact absurd hnil (pieces_ne_nil _ rest)
      · next first others hpieces =>
        rw [hpieces] at ih
        rcases List.mem_cons.mp h with rfl | h
        · simp [hne, ih List.mem_cons_self]
        · exact ih (List.mem_cons_of_mem _ h)

/-- Insertion, as what stands before it and what stands after. -/
theorem insertIdx_append {α : Type} (xs ys : List α) (x : α) :
    (xs ++ ys).insertIdx xs.length x = xs ++ x :: ys := by
  induction xs with
  | nil => rfl
  | cons first xs ih =>
    rw [List.cons_append, List.length_cons, List.insertIdx_succ_cons, ih]
    rfl

theorem insertIdx_eq_take_drop {α : Type} {xs : List α} (h : k ≤ xs.length) (x : α) :
    xs.insertIdx k x = xs.take k ++ x :: xs.drop k := by
  have hsplit := insertIdx_append (xs.take k) (xs.drop k) x
  rwa [List.take_append_drop, List.length_take_of_le h] at hsplit

namespace Draft

/-- Lines that are put together are the lines of the source. -/
theorem sourceLines_intercalate {lines : List (List Char)} (hne : lines ≠ [])
    (h : ∀ line ∈ lines, '\n' ∉ line) :
    sourceLines (String.ofList (['\n'].intercalate lines)) = lines := by
  rw [sourceLines, String.toList_ofList, Text.pieces_eq_splitOnP]
  exact List.splitOn_intercalate '\n' h hne

/-- A source with a line inserted before its line `k`, or after its last. -/
def insertLine (source : String) (k : Nat) (text : List Char) : String :=
  String.ofList (['\n'].intercalate ((sourceLines source).insertIdx k text))

theorem sourceLines_insertLine (source : String) (k : Nat) {text : List Char}
    (h : '\n' ∉ text) :
    sourceLines (insertLine source k text) = (sourceLines source).insertIdx k text := by
  have hne : (sourceLines source).insertIdx k text ≠ [] := by
    intro hnil
    have hsublist := List.sublist_insertIdx (sourceLines source) k text
    rw [hnil, List.sublist_nil] at hsublist
    exact Text.pieces_ne_nil _ _ hsublist
  have hlines : ∀ line ∈ (sourceLines source).insertIdx k text, '\n' ∉ line := by
    intro line hline
    rcases List.eq_or_mem_of_mem_insertIdx hline with rfl | hbefore
    · exact h
    · exact Text.not_mem_of_mem_pieces hbefore
  exact sourceLines_intercalate hne hlines

end Draft

/-! ## Words, comments and labels -/

/-- A comment whose line is renumbered. -/
def Comment.renumber (k : Nat) : Comment → Comment
  | .closed => .closed
  | .opened line => .opened (PixelTurtle.renumber k line)

/-- A mode whose line is renumbered. -/
def LexMode.renumber (k : Nat) : LexMode → LexMode
  | .code => .code
  | .lineComment => .lineComment
  | .block line => .block (PixelTurtle.renumber k line)

theorem scan_renumber (line : Nat) (mode : LexMode) (pending text : List Char) :
    scan (renumber k line) (mode.renumber k) pending text =
      ((scan line mode pending text).1, (scan line mode pending text).2.renumber k) := by
  fun_induction scan line mode pending text with
  | case1 mode pending => cases mode <;> rfl
  | _ => simp_all [scan, LexMode.renumber]

/-- A line yields the same tokens under its new number. -/
theorem lex_renumber (line : Nat) (comment : Comment) (text : List Char) :
    lex (renumber k line) (comment.renumber k) text =
      ((lex line comment text).1, (lex line comment text).2.renumber k) := by
  have hmode : LexMode.ofComment (comment.renumber k) = (LexMode.ofComment comment).renumber k := by
    cases comment <;> rfl
  rw [lex, hmode, scan_renumber]
  rfl

/-- What lines before `k` leave open was opened before `k`. -/
theorem renumber_commentAfter {texts : List (List Char)} (h : texts.length ≤ k) :
    (commentAfter 0 .closed texts).renumber k = commentAfter 0 .closed texts := by
  cases hcomment : commentAfter 0 .closed texts with
  | closed => rfl
  | opened line =>
    obtain ⟨-, hlt⟩ := (commentAfter_eq_opened texts 0 .closed hcomment).resolve_left (by simp)
    rw [Comment.renumber, renumber_of_lt (by omega)]

/-- Labels with their lines renumbered. -/
def Labels.renumber (k : Nat) (labels : Labels) : Labels :=
  labels.map fun (name, line) => (name, PixelTurtle.renumber k line)

theorem Labels.lookup_renumber (labels : Labels) (name : String) :
    (labels.renumber k).lookup name = (labels.lookup name).map (PixelTurtle.renumber k) := by
  induction labels with
  | nil => rfl
  | cons entry rest ih =>
    obtain ⟨other, line⟩ := entry
    simp only [Labels.renumber, List.map_cons, List.lookup_cons] at ih ⊢
    split
    · rfl
    · exact ih

theorem Labels.renumber_append (labels : Labels) (name : String) (line : Nat) :
    Labels.renumber k (labels ++ [(name, line)]) =
      labels.renumber k ++ [(name, PixelTurtle.renumber k line)] := by
  simp [Labels.renumber]

theorem Labels.names_renumber (labels : Labels) :
    (labels.renumber k).map Prod.fst = labels.map Prod.fst := by
  simp [Labels.renumber, Function.comp_def]

/-! ## Reading -/

/-- A jump of a source with its line renumbered. -/
def Goto.renumber (k : Nat) : Goto → Goto
  | .line next => .line (PixelTurtle.renumber k next)
  | .label name => .label name
  | .exit status => .exit status

/-- A jump that was renumbered, or that went on to line `k` of as many lines and
now goes on to the line inserted there. -/
def Goto.Shifts (k lines : Nat) (g g' : Goto) : Prop :=
  g' = g.renumber k ∨ (g' = .line k ∧ g = if k < lines then .line k else .exit 0)

namespace LineContext

theorem matches_renumber (v : Vocabulary) (line : Nat) {lines : Nat} (hk : k ≤ lines) :
    Matches (Goto.Shifts k lines) ⟨v, line, lines⟩ ⟨v, renumber k line, lines + 1⟩ where
  vocabulary := rfl
  line := .inl rfl
  nextLine := by
    unfold nextLine
    dsimp only
    rcases renumber_succ k line with hnext | ⟨heq, hnext⟩
    · rw [hnext]
      simp only [renumber_lt_succ_iff hk]
      left
      split <;> rfl
    · rw [hnext, heq, if_pos (Nat.lt_succ_of_le hk)]
      exact .inr ⟨rfl, rfl⟩
  label _ := .inl rfl
  exit _ := .inl rfl

variable {ctx ctx' : LineContext} {lines : Nat} {labels labels₁ : Labels}

theorem declare_renumber (h : Matches (Goto.Shifts k lines) ctx ctx')
    (hline : ctx'.line = renumber k ctx.line) {name : String} {ws : Words}
    (hdeclare : ctx.declare labels name ws = .ok labels₁) :
    ctx'.declare (labels.renumber k) name ws = .ok (labels₁.renumber k) := by
  obtain ⟨hfree, hnew, rfl⟩ := declare_spec hdeclare
  simp only [declare, h.vocabulary, hfree, Labels.lookup_renumber, hnew, hline,
    Labels.renumber_append]
  rfl

/-- A line that is read is read as well under its new number. -/
theorem instruction_renumber (h : Matches (Goto.Shifts k lines) ctx ctx')
    (hline : ctx'.line = renumber k ctx.line) {tokens : List Token} {i : Instruction Goto}
    (hread : ctx.instruction labels tokens = .ok (i, labels₁)) :
    ∃ i', ctx'.instruction (labels.renumber k) tokens = .ok (i', labels₁.renumber k) ∧
      i.Like (Goto.Shifts k lines) i' := by
  have hbody : ∀ ws (declared : Labels),
      (do let j ← ctx.wholeBody ws; return (j, declared)) = .ok (i, labels₁) →
      ∃ i', (do let j ← ctx'.wholeBody ws; return (j, declared.renumber k)) =
          .ok (i', labels₁.renumber k) ∧ i.Like (Goto.Shifts k lines) i' := by
    intro ws declared hws
    obtain ⟨j, hj, hws⟩ := bind_eq_ok.mp hws
    obtain ⟨rfl, rfl⟩ : j = i ∧ declared = labels₁ := by simpa [pure, Except.pure] using hws
    obtain ⟨i', hi', hlike⟩ := (h.wholeBody ws).ok_right hj
    exact ⟨i', bind_eq_ok.mpr ⟨i', hi', rfl⟩, hlike⟩
  -- a line is told apart by its first two tokens
  rcases tokens with _ | ⟨_ | name, _ | ⟨_ | other, rest⟩⟩
  · -- no words at all
    simp only [LineContext.instruction, h.vocabulary] at hread ⊢
    split at hread
    · next hallows =>
      rw [if_pos hallows]
      exact hbody _ _ hread
    · simp [missing] at hread
  · simp [LineContext.instruction, missing] at hread
  · simp [LineContext.instruction, missing] at hread
  · simp [LineContext.instruction, missing] at hread
  · exact hbody _ _ hread
  · -- a label
    simp only [LineContext.instruction, h.vocabulary] at hread ⊢
    obtain ⟨declared, hdeclare, hread⟩ := bind_eq_ok.mp hread
    rw [declare_renumber h hline hdeclare]
    split at hread
    · simp [missing] at hread
    · next hrest =>
      simp only [hrest]
      exact hbody _ _ hread
  · exact hbody _ _ hread

end LineContext

namespace Reader

variable {v : Vocabulary} {lines : Nat} {s s₁ : Reader} {texts : List (List Char)}
  {is : List (Instruction Goto)}

/-- A reader that has come as far, on a given line and with all numbers of lines
before renumbered. -/
def moveTo (k line : Nat) (s : Reader) : Reader :=
  ⟨line, s.comment.renumber k, s.labels.renumber k⟩

theorem read_renumber (hk : k ≤ lines) {text : List Char} {i : Instruction Goto}
    (h : s.read v lines text = .ok (i, s₁)) :
    ∃ i', (s.moveTo k (renumber k s.line)).read v (lines + 1) text =
        .ok (i', s₁.moveTo k (renumber k s.line + 1)) ∧ i.Like (Goto.Shifts k lines) i' := by
  obtain ⟨hread, -, hcomment⟩ := read_spec h
  obtain ⟨i', hi', hlike⟩ := LineContext.instruction_renumber
    (LineContext.matches_renumber v s.line hk) rfl hread
  refine ⟨i', ?_, hlike⟩
  simp only [read, moveTo, lex_renumber, hi', hcomment]
  rfl

/-- Lines are read as before where all of them are moved by the same number of
lines. -/
theorem Reads.renumber (h : Reads v lines s texts is s₁) (hk : k ≤ lines) (moved : Nat)
    (hmoved : ∀ i < texts.length, PixelTurtle.renumber k (s.line + i) = s.line + i + moved) :
    ∃ js, Reads v (lines + 1) (s.moveTo k (s.line + moved)) texts js
        (s₁.moveTo k (s₁.line + moved)) ∧
      List.Forall₂ (Instruction.Like (Goto.Shifts k lines)) is js := by
  induction h with
  | nil s => exact ⟨[], .nil _, .nil⟩
  | @cons s s' s'' text texts i is first _ ih =>
    have hline := (read_spec first).2.1
    have hfirst : PixelTurtle.renumber k s.line = s.line + moved := hmoved 0 (by simp)
    obtain ⟨i', hi', hlike⟩ := read_renumber hk first
    rw [hfirst, Nat.add_right_comm, ← hline] at hi'
    obtain ⟨js, hjs, hlikes⟩ := ih fun i hi => by
      have hnext := hmoved (i + 1) (by simpa using hi)
      rwa [hline, Nat.add_right_comm s.line 1]
    exact ⟨i' :: js, .cons hi' hjs, .cons hlike hlikes⟩

/-- A line without tokens is read as a placeholder. -/
theorem read_blank {text : List Char} (h : lex s.line s.comment text = ([], s.comment)) :
    s.read .palette lines text =
      .ok (.blank (LineContext.nextLine ⟨.palette, s.line, lines⟩),
        ⟨s.line + 1, s.comment, s.labels⟩) := by
  simp only [read, h]
  rfl

/-- All lines of a source are read as well with a blank one among them. -/
theorem Reads.insert {text : List Char} (hk : k ≤ texts.length)
    (hblank : lex k (commentAfter 0 .closed (texts.take k)) text =
      ([], commentAfter 0 .closed (texts.take k)))
    (h : Reads .palette texts.length start texts is s) :
    ∃ js next, (∀ name, next ≠ .label name) ∧
      Reads .palette (texts.length + 1) start (texts.insertIdx k text)
        (js.insertIdx k (.blank next)) (s.moveTo k (s.line + 1)) ∧
      List.Forall₂ (Instruction.Like (Goto.Shifts k texts.length)) is js := by
  -- the lines before the blank one keep their numbers, those after it move on by one
  have hsplit : Reads .palette texts.length start (texts.take k ++ texts.drop k) is s := by
    rwa [List.take_append_drop]
  obtain ⟨before, after, s₁, rfl, hbefore, hafter⟩ := hsplit.split
  have hline : s₁.line = k := by
    rw [hbefore.line_eq, List.length_take_of_le hk, start, Nat.zero_add]
  have hcomment : s₁.comment = commentAfter 0 .closed (texts.take k) := hbefore.comment_eq
  obtain ⟨js₁, hjs₁, hlike₁⟩ := hbefore.renumber hk 0 fun i hi => renumber_of_lt (by
    rw [List.length_take_of_le hk] at hi
    rwa [start, Nat.zero_add])
  obtain ⟨js₂, hjs₂, hlike₂⟩ := hafter.renumber hk 1 fun i _ => renumber_of_ge (by omega)
  have hlex : lex k (s₁.moveTo k k).comment text = ([], (s₁.moveTo k k).comment) := by
    rwa [moveTo, hcomment, renumber_commentAfter (by simp)]
  rw [hline] at hjs₁ hjs₂
  have hlength : js₁.length = k := by rw [hjs₁.length_eq, List.length_take_of_le hk]
  refine ⟨js₁ ++ js₂, LineContext.nextLine ⟨.palette, k, texts.length + 1⟩, ?_, ?_,
    List.rel_append hlike₁ hlike₂⟩
  · intro name
    unfold LineContext.nextLine
    split <;> simp
  · have hinsert := insertIdx_append js₁ js₂
    rw [hlength] at hinsert
    rw [insertIdx_eq_take_drop hk, hinsert]
    exact hjs₁.append (.cons (read_blank hlex) hjs₂)

end Reader

/-! ## Linking -/

theorem Goto.Shifts.link {lines line line' : Nat} {g g' : Goto} {labels : Labels} {t t' : Target}
    (h : g.Shifts k lines g') (ht : g.link labels line = .ok t)
    (ht' : g'.link (labels.renumber k) line' = .ok t') : t.Shifts k lines t' := by
  rcases h with rfl | ⟨rfl, rfl⟩
  · left
    cases g with
    | line next =>
      obtain rfl : Target.jump next = t := by simpa [Goto.link] using ht
      obtain rfl : Target.jump (PixelTurtle.renumber k next) = t' := by
        simpa [Goto.link, Goto.renumber] using ht'
      rfl
    | exit status =>
      obtain rfl : Target.exit status = t := by simpa [Goto.link] using ht
      obtain rfl : Target.exit status = t' := by simpa [Goto.link, Goto.renumber] using ht'
      rfl
    | label name =>
      simp only [Goto.link, Goto.renumber, Labels.lookup_renumber] at ht ht'
      cases hlookup : labels.lookup name with
      | none => simp [hlookup] at ht
      | some next =>
        obtain rfl : Target.jump next = t := by simpa [hlookup] using ht
        obtain rfl : Target.jump (PixelTurtle.renumber k next) = t' := by
          simpa [hlookup] using ht'
        rfl
  · right
    obtain rfl : Target.jump k = t' := by simpa [Goto.link] using ht'
    refine ⟨rfl, ?_⟩
    split at ht
    · next hlt =>
      rw [if_pos hlt]
      simpa [Goto.link] using ht.symm
    · next hend =>
      rw [if_neg hend]
      simpa [Goto.link] using ht.symm

/-- What stands in the second of two related lists stands in the first. -/
theorem exists_getElem?_of_forall₂ {α : Type} {R : α → α → Prop} {xs ys : List α}
    (h : List.Forall₂ R xs ys) {n : Nat} {y : α} (hy : ys[n]? = some y) :
    ∃ x, xs[n]? = some x ∧ R x y := by
  induction h generalizing n with
  | nil => simp at hy
  | cons hfirst _ ih =>
    cases n with
    | zero =>
      obtain rfl := Option.some.inj hy
      exact ⟨_, rfl, hfirst⟩
    | succ n => exact ih hy

theorem kinds_of_forall₂ {τ : Type} {R : τ → τ → Prop} {is js : List (Instruction τ)}
    (h : List.Forall₂ (Instruction.Like R) is js) :
    js.map Instruction.kind = is.map Instruction.kind := by
  induction h with
  | nil => rfl
  | cons hlike _ ih => rw [List.map_cons, List.map_cons, hlike.kind, ih]

namespace Draft

variable {labels : Labels} {is js : List (Instruction Goto)} {next : Goto} {code code' : Code}

theorem count_eq (d : Draft) :
    d.count = (d.instructions.map Instruction.kind).countP (· ≠ .placeholder) := by
  rw [count, List.countP_map]
  rfl

/-- With a placeholder inserted, a draft is linked as well. -/
theorem exists_link_insert
    (hlike : List.Forall₂ (Instruction.Like (Goto.Shifts k is.length)) is js)
    (hnext : ∀ name, next ≠ .label name) (h : Draft.link ⟨.palette, is, labels⟩ = .ok code) :
    ∃ code', Draft.link ⟨.palette, js.insertIdx k (.blank next), labels.renumber k⟩ =
      .ok code' := by
  refine exists_link fun i' hi' slot name htarget => ?_
  rw [Labels.names_renumber]
  rcases List.eq_or_mem_of_mem_insertIdx hi' with rfl | hi'
  · cases slot <;> exact absurd htarget (hnext name)
  · obtain ⟨line, hline⟩ := List.getElem?_of_mem hi'
    obtain ⟨i, hi, hlike⟩ := exists_getElem?_of_forall₂ hlike hline
    have hshifts := (hlike.action slot).target
    rw [htarget] at hshifts
    refine declared_of_link h (List.mem_of_getElem? hi) slot ?_
    rcases hshifts with heq | ⟨hjump, -⟩
    · cases hgoto : (i.action slot).target <;> simp_all [Goto.renumber]
    · simp at hjump

/-- The linked lines have one placeholder more. -/
theorem link_insert_widened
    (hlike : List.Forall₂ (Instruction.Like (Goto.Shifts k is.length)) is js) (hk : k ≤ is.length)
    (h : Draft.link ⟨.palette, is, labels⟩ = .ok code)
    (h' : Draft.link ⟨.palette, js.insertIdx k (.blank next), labels.renumber k⟩ = .ok code') :
    code.Widened k code' where
  le := by rwa [size_of_link h]
  kinds := by
    rw [(link_lines h).1, (link_lines h').1, List.map_insertIdx, kinds_of_forall₂ hlike]
    rfl

/-- The other lines are linked as before, but for the placeholder that stands in
the way of some. -/
theorem link_insert_like
    (hlike : List.Forall₂ (Instruction.Like (Goto.Shifts k is.length)) is js) (hk : k ≤ is.length)
    (h : Draft.link ⟨.palette, is, labels⟩ = .ok code)
    (h' : Draft.link ⟨.palette, js.insertIdx k (.blank next), labels.renumber k⟩ = .ok code')
    (line : Nat) (slot : Slot) :
    (code.action line slot).Like (Target.Shifts k code.size)
      (code'.action (renumber k line) slot) := by
  have hsize := (link_insert_widened hlike hk h h').size
  rw [size_of_link h] at hsize ⊢
  rcases Nat.lt_or_ge line code.size with hlt | hge
  · obtain ⟨i, hi, -, hlinked⟩ := (link_lines h).2 line hlt
    have hlt' : renumber k line < code'.size := by
      rw [hsize, renumber_lt_succ_iff hk, ← size_of_link h]
      exact hlt
    obtain ⟨i', hi', -, hlinked'⟩ := (link_lines h').2 _ hlt'
    dsimp only at hi'
    rw [getElem?_insertIdx_renumber] at hi'
    obtain ⟨j, hj, hlikes⟩ := exists_getElem?_of_forall₂ hlike hi'
    obtain rfl : i = j := Option.some.inj (hi.symm.trans hj)
    obtain ⟨hwrite, hdirection, htarget⟩ := hlikes.action slot
    obtain ⟨hlink, hdirection₁, hwrite₁⟩ := Linker.action_spec (hlinked slot)
    obtain ⟨hlink', hdirection₂, hwrite₂⟩ := Linker.action_spec (hlinked' slot)
    refine ⟨?_, ?_, htarget.link hlink hlink'⟩
    · rw [hwrite₁ rfl, hwrite₂ rfl, hwrite]
    · rw [hdirection₁, hdirection₂, hdirection]
  · have hge' : code'.size ≤ renumber k line := by
      rw [size_of_link h] at hge
      rw [hsize, renumber_of_ge (Nat.le_trans hk hge)]
      omega
    rw [Code.action_of_ge hge, Code.action_of_ge hge']
    exact ⟨rfl, rfl, .inl rfl⟩

end Draft

/-! ## Compiling -/

namespace Program

/-- The passes make the two codes match. -/
theorem passes_inserted {options : CompileOptions} {linked linked' code : Code}
    (hlinked : linked.Linked) (hlinked' : linked'.Linked)
    (h : linked.collapse.Inserted k linked'.collapse) (hcode : passes options linked = .ok code) :
    ∃ code', passes options linked' = .ok code' ∧ code.Inserted k code' := by
  unfold passes at hcode ⊢
  dsimp only at hcode ⊢
  split at hcode
  · next hoptimize =>
    rw [if_pos hoptimize]
    obtain ⟨code', hcode'⟩ := h.exists_fold hlinked.collapse hlinked'.collapse hcode
    exact ⟨code', hcode', h.fold hlinked.collapse hlinked'.collapse hcode hcode'⟩
  · next hoptimize =>
    obtain rfl := Except.ok.inj hcode
    rw [if_neg hoptimize]
    exact ⟨_, rfl, h⟩

/-- A source that compiles compiles as well with a blank line inserted, to the
same program with its lines renumbered. -/
theorem exists_compile_insertLine {options : CompileOptions} {source : String} {p : Program}
    (hdialect : options.dialect = .palette) (h : compile options source = .ok p)
    (hk : k ≤ (Draft.sourceLines source).length) {text : List Char} (htext : '\n' ∉ text)
    (hblank : lex k (commentAfter 0 .closed ((Draft.sourceLines source).take k)) text =
      ([], commentAfter 0 .closed ((Draft.sourceLines source).take k))) :
    ∃ p', compile options (Draft.insertLine source k text) = .ok p' ∧ p'.count = p.count ∧
      p'.labels = p.labels.renumber k ∧ p.code.Inserted k p'.code := by
  obtain ⟨_, optimize, strictness⟩ := options
  obtain rfl : _ = Dialect.palette := hdialect
  obtain ⟨d, linked, code, hd, hlinked, hcode, rfl⟩ := compile_eq_ok_iff.mp h
  obtain ⟨is, s, hreads, hclosed, rfl⟩ := Draft.ofSource_eq_ok_iff.mp hd
  have hlength : is.length = (Draft.sourceLines source).length := hreads.length_eq
  obtain ⟨js, next, hnext, hreads', hlike⟩ := hreads.insert hk hblank
  rw [← hlength] at hk hlike
  -- the draft with the blank line
  have hd' : Draft.ofSource .palette (Draft.insertLine source k text) =
      .ok ⟨.palette, js.insertIdx k (.blank next), s.labels.renumber k⟩ := by
    refine Draft.ofSource_eq_ok_iff.mpr ⟨_, s.moveTo k (s.line + 1), ?_, ?_, rfl⟩
    · rw [Draft.ReadsAll, Draft.sourceLines_insertLine source k htext,
        List.length_insertIdx_of_le_length (hlength ▸ hk)]
      exact hreads'
    · rw [Reader.moveTo, hclosed]
      rfl
  obtain ⟨linked', hlinked'⟩ := Draft.exists_link_insert hlike hnext hlinked
  have hlinkedOld := linked_of_ofSource hd hlinked
  have hlinkedNew := linked_of_ofSource hd' hlinked'
  have hcollapse := Code.collapse_inserted (Draft.link_insert_widened hlike hk hlinked hlinked')
    hlinkedOld hlinkedNew (Draft.link_insert_like hlike hk hlinked hlinked')
  obtain ⟨code', hcode', hinserted⟩ := passes_inserted hlinkedOld hlinkedNew hcollapse hcode
  refine ⟨_, compile_eq_ok_iff.mpr ⟨_, linked', code', hd', hlinked', hcode', rfl⟩, ?_, rfl,
    hinserted⟩
  -- a placeholder does not count
  have hperm := List.perm_insertIdx (Instruction.blank next) js
    (show k ≤ js.length from hlike.length_eq ▸ hk)
  rw [Draft.count_eq, Draft.count_eq, ← kinds_of_forall₂ hlike,
    (hperm.map Instruction.kind).countP_eq]
  simp [Instruction.blank]

/-- Blank lines are free. Wherever a line is inserted that yields no tokens and
leaves the comment as it was, the source still compiles. Its program has as many
instructions as before; its lines are those before with a placeholder among
them, and all targets and labels from there on one line further; and on every
canvas, both programs are in the same state after any number of instructions. -/
theorem compile_insertLine {options : CompileOptions} {source : String} {p : Program}
    (hdialect : options.dialect = .palette) (h : compile options source = .ok p)
    (hk : k ≤ (Draft.sourceLines source).length) {text : List Char} (htext : '\n' ∉ text)
    (hblank : lex k (commentAfter 0 .closed ((Draft.sourceLines source).take k)) text =
      ([], commentAfter 0 .closed ((Draft.sourceLines source).take k))) :
    ∃ p', compile options (Draft.insertLine source k text) = .ok p' ∧ p'.count = p.count ∧
      p'.code.toList = (p.code.toList.map (Instruction.renumber k)).insertIdx k
        (.blank ((p.code.landing k).renumber k)) ∧
      p'.labels = p.labels.map (fun (name, line) => (name, renumber k line)) ∧
      ∀ canvas budget,
        let m := (Machine.start p canvas).after budget
        let m' := (Machine.start p' canvas).after budget
        m'.exitStatus? = m.exitStatus? ∧ m'.canvas = m.canvas ∧ m'.cursor = m.cursor ∧
          m'.executed = m.executed ∧ m'.percentage = m.percentage := by
  obtain ⟨p', hp', hcount, hlabels, hinserted⟩ :=
    exists_compile_insertLine hdialect h hk htext hblank
  have hsound := sound_of_compile h
  have hsound' := sound_of_compile hp'
  refine ⟨p', hp', hcount, hinserted.toList_eq hsound', hlabels, fun canvas budget => ?_⟩
  have hconfig := Machine.config_after_inserted hsound hsound' hinserted canvas budget
  exact ⟨Machine.exitStatus?_after_inserted hsound hsound' hinserted canvas budget,
    congrArg Config.canvas hconfig, congrArg Config.cursor hconfig,
    Machine.executed_after_inserted hsound hsound' hinserted canvas budget,
    Machine.percentage_after_inserted hsound hsound' hinserted canvas budget
      (size_pos_of_compile h)⟩

/-- A line inserted where a comment is open. It lies between a line and the one
that this goes on to, and would declare a label a second time elsewhere. -/
theorem compile_insertLine_in_comment :
    ∃ p p', compile ⟨.palette, true, some .strict⟩
          "a: right /* one\ntwo */ goto b\n\nb: if white goto a" = .ok p ∧
      compile ⟨.palette, true, some .strict⟩
          "a: right /* one\nb: up\ntwo */ goto b\n\nb: if white goto a" = .ok p' ∧
      p'.count = p.count ∧ p.labels = [("a", 0), ("b", 3)] ∧ p'.labels = [("a", 0), ("b", 4)] ∧
      ∀ canvas budget, ((Machine.start p' canvas).after budget).executed =
        ((Machine.start p canvas).after budget).executed := by
  obtain ⟨p, hp, hlabels⟩ : ∃ p, compile ⟨.palette, true, some .strict⟩
      "a: right /* one\ntwo */ goto b\n\nb: if white goto a" = .ok p ∧
      p.labels = [("a", 0), ("b", 3)] := ⟨_, rfl, rfl⟩
  have hsource : Draft.insertLine "a: right /* one\ntwo */ goto b\n\nb: if white goto a" 1
      "b: up".toList = "a: right /* one\nb: up\ntwo */ goto b\n\nb: if white goto a" := rfl
  have hblank : lex 1 (commentAfter 0 .closed ((Draft.sourceLines
      "a: right /* one\ntwo */ goto b\n\nb: if white goto a").take 1)) "b: up".toList =
      ([], .opened 0) := rfl
  obtain ⟨p', hp', hcount, -, hlabels', hruns⟩ :=
    compile_insertLine rfl hp (by decide) (by decide) hblank
  rw [hsource] at hp'
  rw [hlabels] at hlabels'
  exact ⟨p, p', hp, hp', hcount, hlabels, hlabels', fun canvas budget =>
    (hruns canvas budget).2.2.2.1⟩

end Program

end PixelTurtle
