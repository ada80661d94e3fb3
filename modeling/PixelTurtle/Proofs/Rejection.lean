/-
PixelTurtle.Proofs.Rejection — which sources do not compile, and what is said
of them.

There is a reason for each phase: a line that cannot be read, a comment that is
left open, a label that no line declares, a chain that never moves. A phase
only begins when the one before has found nothing, so the reasons exclude each
other, and the earliest one is reported.

* `Program.Rejected` — the reasons and the fault that goes with each.
* `Draft.link_eq_error_iff`, `Program.passes_eq_error_iff` — the reasons of the
  later phases. Those of the first are in `Draft.ofSource_eq_error_iff`.
* `Program.compile_rejects` — they are all the reasons, and no line decides
  about the lines before it.
-/
import PixelTurtle.Proofs.LineByLine
import PixelTurtle.Proofs.WellFormed

namespace PixelTurtle

/-! ## Labels -/

/-- The instruction uses a label that is not among the names. If both of its
actions do, this is the label of the white one. -/
inductive Instruction.Dangles (names : List String) (i : Instruction Goto) : String → Prop where
  | white {name : String} (h : i.white.target = .label name) (hname : name ∉ names) :
      Dangles names i name
  | color {name : String} (hwhite : ∀ other, i.white.target = .label other → other ∈ names)
      (h : i.color.target = .label name) (hname : name ∉ names) : Dangles names i name

theorem Instruction.Dangles.unique {names : List String} {i : Instruction Goto}
    {name name' : String} (h : i.Dangles names name) (h' : i.Dangles names name') :
    name = name' := by
  cases h with
  | white h hname =>
    cases h' with
    | white h' _ => exact Goto.label.inj (h.symm.trans h')
    | color hwhite _ _ => exact absurd (hwhite name h) hname
  | color hwhite h hname =>
    cases h' with
    | white h' hname' => exact absurd (hwhite name' h') hname'
    | color _ h' _ => exact Goto.label.inj (h.symm.trans h')

theorem Goto.link_eq_error_iff {labels : Labels} {line : Nat} {goto : Goto} {fault : Fault} :
    goto.link labels line = .error fault ↔
      ∃ name, goto = .label name ∧ name ∉ labels.map Prod.fst ∧ fault = undefined name line := by
  cases goto with
  | line next => simp [link]
  | exit status => simp [link]
  | label name =>
    simp only [← Labels.lookup_eq_none_iff, Goto.label.injEq, exists_eq_left']
    rw [link]
    cases labels.lookup name with
    | none => simp only [true_and, Except.error.injEq, eq_comm]
    | some next => simp only [reduceCtorEq, false_and]

namespace Linker

variable {fault : Fault}

theorem action_eq_error_iff (l : Linker) (line : Nat) (slot : Slot) (a : Action Goto) :
    l.action line slot a = .error fault ↔
      ∃ name, a.target = .label name ∧ name ∉ l.labels.map Prod.fst ∧
        fault = Goto.undefined name line := by
  unfold Linker.action
  rw [bind_eq_error, Goto.link_eq_error_iff]
  simp [pure, Except.pure]

/-- An action that is linked has no label that is not declared. -/
theorem declared_of_action {l : Linker} {line : Nat} {slot : Slot} {a : Action Goto}
    {linked : Action Target} (h : l.action line slot a = .ok linked) :
    ∀ name, a.target = .label name → name ∈ l.labels.map Prod.fst := by
  intro name htarget
  by_contra hname
  have herror := (l.action_eq_error_iff line slot a).mpr ⟨name, htarget, hname, rfl⟩
  simp [herror] at h

theorem instruction_eq_error_iff (l : Linker) (line : Nat) (i : Instruction Goto) :
    l.instruction line i = .error fault ↔
      ∃ name, i.Dangles (l.labels.map Prod.fst) name ∧ fault = Goto.undefined name line := by
  unfold Linker.instruction
  rw [bind_eq_error]
  constructor
  · rintro (h | ⟨white, hwhite, h⟩)
    · obtain ⟨name, htarget, hname, rfl⟩ := (l.action_eq_error_iff _ _ _).mp h
      exact ⟨name, .white htarget hname, rfl⟩
    · have hcolor := (bind_eq_error.mp h).resolve_right (by simp [pure, Except.pure])
      obtain ⟨name, htarget, hname, rfl⟩ := (l.action_eq_error_iff _ _ _).mp hcolor
      exact ⟨name, .color (declared_of_action hwhite) htarget hname, rfl⟩
  · rintro ⟨name, hdangles, rfl⟩
    cases hdangles with
    | white htarget hname =>
      exact .inl ((l.action_eq_error_iff _ _ _).mpr ⟨name, htarget, hname, rfl⟩)
    | color hdeclared htarget hname =>
      -- the white action is linked, so it is the color action that fails
      right
      cases hwhite : l.action line .white i.white with
      | error fault =>
        obtain ⟨other, hother, hnot, -⟩ := (l.action_eq_error_iff _ _ _).mp hwhite
        exact absurd (hdeclared other hother) hnot
      | ok white =>
        have hcolor := (l.action_eq_error_iff line .color i.color).mpr ⟨name, htarget, hname, rfl⟩
        exact ⟨white, rfl, bind_eq_error.mpr (.inl hcolor)⟩

/-- Linking stops at the first line with a label that is not declared. -/
theorem instructions_eq_error_iff (l : Linker) (is : List (Instruction Goto)) :
    ∀ line : Nat, l.instructions line is = .error fault ↔
      ∃ name number, fault = Goto.undefined name number ∧
        ∃ index, number = line + index ∧
          FirstAt (Instruction.Dangles (l.labels.map Prod.fst)) is index name := by
  induction is with
  | nil =>
    intro line
    simp [instructions, not_firstAt_nil]
  | cons i is ih =>
    intro line
    rw [instructions, bind_eq_error]
    cases hfirst : l.instruction line i with
    | error fault' =>
      obtain ⟨name, hdangles, rfl⟩ := (l.instruction_eq_error_iff line i).mp hfirst
      simp only [exists_firstAt_cons_of_holds hdangles fun _ => hdangles.unique]
      simp [eq_comm]
    | ok linked =>
      have hfine : ∀ name, ¬ i.Dangles (l.labels.map Prod.fst) name := by
        intro name hdangles
        have herror := (l.instruction_eq_error_iff line i).mpr ⟨name, hdangles, rfl⟩
        simp [herror] at hfirst
      simp only [exists_firstAt_cons hfine]
      rw [← ih (line + 1)]
      simp [bind_eq_error, pure, Except.pure]

end Linker

theorem Draft.link_eq_error_iff {d : Draft} {fault : Fault} :
    d.link = .error fault ↔
      ∃ name line, FirstAt (Instruction.Dangles (d.labels.map Prod.fst)) d.instructions line name ∧
        fault = Goto.undefined name line := by
  rw [Draft.link, Linker.link]
  have hmap {r : Except Fault (List (Instruction Target))} :
      r.map List.toArray = .error fault ↔ r = .error fault := by
    cases r <;> simp [Except.map]
  rw [hmap, Linker.instructions_eq_error_iff]
  simp [and_comm]

namespace Draft

variable {d : Draft} {code : Code}

/-- A draft that is linked uses labels that are declared. -/
theorem declared_of_link (h : d.link = .ok code) {i : Instruction Goto}
    (hi : i ∈ d.instructions) (slot : Slot) {name : String}
    (htarget : (i.action slot).target = .label name) : name ∈ d.labels.map Prod.fst := by
  obtain ⟨line, hline⟩ := List.getElem?_of_mem hi
  have hlt : line < code.size := by
    rw [size_of_link h]
    exact (List.getElem?_eq_some_iff.mp hline).1
  obtain ⟨j, hj, -, hlinked⟩ := (link_lines h).2 line hlt
  obtain rfl : i = j := Option.some.inj (hline.symm.trans hj)
  exact Linker.declared_of_action (hlinked slot) name htarget

/-- A draft that uses labels that are declared is linked. -/
theorem exists_link
    (h : ∀ i ∈ d.instructions, ∀ (slot : Slot) (name : String),
      (i.action slot).target = .label name → name ∈ d.labels.map Prod.fst) :
    ∃ code, d.link = .ok code := by
  cases hlink : d.link with
  | ok code => exact ⟨code, rfl⟩
  | error fault =>
    obtain ⟨name, line, ⟨⟨i, hi, hdangles⟩, -⟩, -⟩ := link_eq_error_iff.mp hlink
    have hmem := List.mem_of_getElem? hi
    cases hdangles with
    | white htarget hname => exact absurd (h i hmem .white name htarget) hname
    | color _ htarget hname => exact absurd (h i hmem .color name htarget) hname

end Draft

namespace Program

/-! ## Compiling -/

variable {options : CompileOptions} {source : String} {fault : Fault}

theorem compile_eq_error_iff :
    compile options source = .error fault ↔
      Draft.ofSource options.dialect source = .error fault ∨
        ∃ d, Draft.ofSource options.dialect source = .ok d ∧
          (d.link = .error fault ∨
            ∃ linked, d.link = .ok linked ∧ passes options linked = .error fault) := by
  unfold compile
  simp only [bind_eq_error]
  simp [pure, Except.pure]

/-- The passes over a linked code reject it only when they are to fold it, and
strictly. -/
theorem passes_eq_error_iff {linked : Code} (hlinked : linked.Linked) :
    passes options linked = .error fault ↔
      options.optimize = true ∧ options.effectiveStrictness = .strict ∧
        ∃ index, FirstAt (fun b => ComesBack linked.collapse [b]) linked.collapse.starts index
          fault := by
  unfold passes
  dsimp only
  split
  · next h => simp only [h, Code.fold_eq_error_iff hlinked.collapse.inRange, true_and]
  · next h => simp [h]

/-- The reasons why a source does not compile. -/
inductive Rejected (options : CompileOptions) (source : String) : Fault → Prop where
  /-- A line cannot be read, and it is the first. -/
  | line {n : Nat} {f : LineFault} (h : Draft.RejectsLine options.dialect source n f) :
      Rejected options source (f.toFault n)
  /-- All lines are read, and a comment is open at the end. -/
  | comment {is : List (Instruction Goto)} {s : Reader} {opening : Nat}
      (reads : Draft.ReadsAll options.dialect source is s)
      (opened : OpenSince (Draft.sourceLines source) opening) :
      Rejected options source (Draft.unterminated opening)
  /-- All comments are closed, and some line uses a label that none declares. -/
  | label {is : List (Instruction Goto)} {s : Reader} {line : Nat} {name : String}
      (reads : Draft.ReadsAll options.dialect source is s) (closed : s.comment = .closed)
      (first : FirstAt (Instruction.Dangles (declared 0 .closed (Draft.sourceLines source))) is
        line name) :
      Rejected options source (Goto.undefined name line)
  /-- All labels are declared, and folding, which is strict, finds a chain that
  comes back without moving. -/
  | loop {d : Draft} {linked : Code} {index : Nat} {fault : Fault}
      (hd : Draft.ofSource options.dialect source = .ok d) (hlinked : d.link = .ok linked)
      (optimize : options.optimize = true) (strict : options.effectiveStrictness = .strict)
      (first : FirstAt (fun b => ComesBack linked.collapse [b]) linked.collapse.starts index
        fault) :
      Rejected options source fault

theorem rejected_of_compile (h : compile options source = .error fault) :
    Rejected options source fault := by
  rcases compile_eq_error_iff.mp h with hread | ⟨d, hd, hlink | ⟨linked, hlinked, hpasses⟩⟩
  · rcases Draft.ofSource_eq_error_iff.mp hread with
      ⟨n, f, hrejects, rfl⟩ | ⟨is, s, opening, hreads, hopened, rfl⟩
    · exact .line hrejects
    · exact .comment hreads ((Draft.comment_eq_opened_iff hreads).mp hopened)
  · obtain ⟨is, s, hreads, hclosed, rfl⟩ := Draft.ofSource_eq_ok_iff.mp hd
    obtain ⟨name, line, hfirst, rfl⟩ := Draft.link_eq_error_iff.mp hlink
    rw [Draft.names_of_readsAll hreads] at hfirst
    exact .label hreads hclosed hfirst
  · obtain ⟨hoptimize, hstrict, index, hfirst⟩ :=
      (passes_eq_error_iff (linked_of_ofSource hd hlinked)).mp hpasses
    exact .loop hd hlinked hoptimize hstrict hfirst

theorem Rejected.compile_eq (h : Rejected options source fault) :
    compile options source = .error fault := by
  rw [compile_eq_error_iff]
  cases h with
  | line hrejects => exact .inl (Draft.ofSource_of_rejectsLine hrejects)
  | comment hreads hopened =>
    left
    rw [Draft.ofSource_of_readsAll hreads, (Draft.comment_eq_opened_iff hreads).mpr hopened]
  | label hreads hclosed hfirst =>
    right
    refine ⟨_, Draft.ofSource_eq_ok_iff.mpr ⟨_, _, hreads, hclosed, rfl⟩, .inl ?_⟩
    rw [← Draft.names_of_readsAll hreads] at hfirst
    exact Draft.link_eq_error_iff.mpr ⟨_, _, hfirst, rfl⟩
  | loop hd hlinked hoptimize hstrict hfirst =>
    right
    refine ⟨_, hd, .inr ⟨_, hlinked, ?_⟩⟩
    exact (passes_eq_error_iff (linked_of_ofSource hd hlinked)).mpr
      ⟨hoptimize, hstrict, _, hfirst⟩

/-- A source fails to compile for one of the reasons, with the fault that goes
with it, and compiles if there is none. What is wrong with a line is wrong with
it in every source that has the same lines up to there. -/
theorem compile_rejects (options : CompileOptions) (source : String) :
    (∀ fault, compile options source = .error fault ↔ Rejected options source fault) ∧
      (∀ n f, Draft.RejectsLine options.dialect source n f →
        ∀ (options' : CompileOptions) (source' : String), options'.dialect = options.dialect →
          (Draft.sourceLines source').take (n + 1) = (Draft.sourceLines source).take (n + 1) →
          compile options' source' = .error (f.toFault n)) ∧
      ((∃ p, compile options source = .ok p) ↔ ∀ fault, ¬ Rejected options source fault) := by
  have hiff : ∀ fault, compile options source = .error fault ↔ Rejected options source fault :=
    fun fault => ⟨rejected_of_compile, Rejected.compile_eq⟩
  refine ⟨hiff, ?_, ?_⟩
  · intro n f hrejects options' source' hdialect hlines
    have hsame : Draft.RejectsLine options'.dialect source' n f := by
      rw [hdialect]
      exact hrejects.congr hlines
    exact (Rejected.line hsame).compile_eq
  · simp only [← hiff]
    cases compile options source <;> simp

/-- The second line decides, whatever follows it and although the first uses a
label that is not declared. Then the other reasons, and an option that lifts
the last. -/
theorem compile_rejects_second_line :
    compile ⟨.palette, false, none⟩ "goto missing\nwrite\n: /* up" =
        .error ⟨.badSyntax, some 1, none, "color is missing"⟩ ∧
      Rejected ⟨.palette, true, none⟩ "goto missing /* a\n b */ up /* c\n d"
        (Draft.unterminated 1) ∧
      Rejected ⟨.palette, true, none⟩ "up\nif white goto a else goto b" (Goto.undefined "a" 1) ∧
      Rejected ⟨.binary, true, none⟩ "move N\nx: goto x" (Folding.loopFault 1) ∧
      ∀ fault, ¬ Rejected ⟨.binary, false, none⟩ "move N\nx: goto x" fault := by
  have hlines : Draft.sourceLines "goto missing\nwrite" =
      ["goto missing".toList, "write".toList] := rfl
  have hfirst : Reader.start.read .palette 2 "goto missing".toList =
      .ok (⟨.goOn (.label "missing"), .goOn (.label "missing"), .unconditional⟩,
        ⟨1, .closed, []⟩) := rfl
  have hsecond : Reader.read .palette 2 ⟨1, .closed, []⟩ "write".toList =
      .error ⟨.missingColor, none⟩ := rfl
  have hrejects : Draft.RejectsLine .palette "goto missing\nwrite" 1 ⟨.missingColor, none⟩ := by
    rw [Draft.RejectsLine, hlines]
    exact .later hfirst (.here hsecond)
  have hmore : Draft.sourceLines "goto missing\nwrite\n: /* up" =
      ["goto missing".toList, "write".toList, ": /* up".toList] := rfl
  refine ⟨?_, ?_, ?_, ?_, ?_⟩
  · refine (compile_rejects ⟨.palette, true, none⟩ _).2.1 1 _ hrejects ⟨.palette, false, none⟩ _
      rfl ?_
    rw [hlines, hmore]
    rfl
  · exact ((compile_rejects _ _).1 _).mp rfl
  · exact ((compile_rejects _ _).1 _).mp rfl
  · exact ((compile_rejects _ _).1 _).mp rfl
  · exact (compile_rejects _ _).2.2.mp ⟨_, rfl⟩

end Program

end PixelTurtle
