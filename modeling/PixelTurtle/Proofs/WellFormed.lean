/-
PixelTurtle.Proofs.WellFormed — every compiled program is well formed.

Each pass hands a property of the code on to the next:

* a linked code is `Code.Linked`: jumps lead to lines, placeholders fall
  through to the next line;
* a collapsed code is `Code.Sound`: jumps lead to lines that hold an
  instruction, placeholders lead to the next such line;
* folding keeps `Code.Sound`, since the end of a chain has the target of an
  action of the chain and no chain leads onto a placeholder.

`Program.WellFormed` puts this together with what reading the source says of
the labels and the number of lines.
-/
import PixelTurtle.Program
import PixelTurtle.Proofs.Folding
import PixelTurtle.Proofs.Reading

namespace PixelTurtle

/-! ## Linking -/

namespace Linker

variable {l : Linker} {line : Nat}

theorem action_spec {slot : Slot} {a : Action Goto} {linked : Action Target}
    (h : l.action line slot a = .ok linked) :
    a.target.link l.labels line = .ok linked.target ∧ linked.direction = a.direction ∧
      (l.defaultsWrites = false → linked.write = a.write) := by
  unfold Linker.action at h
  obtain ⟨target, htarget, h⟩ := bind_eq_ok.mp h
  simp only [pure, Except.pure, Except.ok.injEq] at h
  subst h
  exact ⟨htarget, rfl, fun hdefaults => by simp [hdefaults]⟩

theorem instruction_spec {i : Instruction Goto} {linked : Instruction Target}
    (h : l.instruction line i = .ok linked) :
    linked.kind = i.kind ∧
      ∀ slot, l.action line slot (i.action slot) = .ok (linked.action slot) := by
  unfold Linker.instruction at h
  obtain ⟨white, hwhite, h⟩ := bind_eq_ok.mp h
  obtain ⟨color, hcolor, h⟩ := bind_eq_ok.mp h
  obtain rfl : (⟨white, color, i.kind⟩ : Instruction Target) = linked := by
    simpa [pure, Except.pure] using h
  refine ⟨rfl, fun slot => ?_⟩
  cases slot with
  | white => exact hwhite
  | color => exact hcolor

/-- Linking goes line by line. -/
theorem instructions_spec :
    ∀ (is : List (Instruction Goto)) (line : Nat) {linked : List (Instruction Target)},
      l.instructions line is = .ok linked →
      linked.map Instruction.kind = is.map Instruction.kind ∧
        ∀ k j, linked[k]? = some j → ∃ i, is[k]? = some i ∧ l.instruction (line + k) i = .ok j
  | [], line, linked, h => by
      obtain rfl : [] = linked := by simpa [instructions] using h
      simp
  | i :: rest, line, linked, h => by
      rw [instructions] at h
      obtain ⟨first, hfirst, h⟩ := bind_eq_ok.mp h
      obtain ⟨others, hothers, h⟩ := bind_eq_ok.mp h
      obtain rfl : first :: others = linked := by simpa [pure, Except.pure] using h
      obtain ⟨hkinds, hspec⟩ := instructions_spec rest (line + 1) hothers
      refine ⟨by simp [hkinds, (instruction_spec hfirst).1], ?_⟩
      intro k j hk
      cases k with
      | zero =>
        obtain rfl : first = j := by simpa using hk
        exact ⟨i, rfl, hfirst⟩
      | succ k =>
        obtain ⟨i', hi', hlinked⟩ := hspec k j (by simpa using hk)
        exact ⟨i', by simpa using hi', by rwa [show line + (k + 1) = line + 1 + k by omega]⟩

end Linker

/-- What is known of a linked code. -/
structure Code.Linked (code : Code) : Prop where
  inRange : code.InRange
  statuses : ∀ line slot status, (code.action line slot).target = .exit status →
    status.toNat ≤ maxStatus
  fallsThrough : code.FallsThrough

/-- Only a dialect that leaves writes alone has placeholders. -/
theorem Dialect.defaultsWrites_eq_false {dialect : Dialect}
    (h : dialect.vocabulary.allowsPlaceholders = true) :
    dialect.vocabulary.defaultsWrites = false := by
  cases dialect with
  | binary => simp [Dialect.vocabulary, Vocabulary.binary] at h
  | palette => rfl

namespace Draft

variable {d : Draft} {code : Code}

/-- The lines of a linked draft are linked instructions of the draft. -/
theorem link_lines (h : d.link = .ok code) :
    code.kinds = d.instructions.map Instruction.kind ∧
      ∀ line (hline : line < code.size), ∃ i, d.instructions[line]? = some i ∧
        i.kind = code[line].kind ∧
        ∀ slot, Linker.action ⟨d.labels, d.dialect.vocabulary.defaultsWrites⟩ line slot
          (i.action slot) = .ok (code.action line slot) := by
  unfold Draft.link Linker.link at h
  cases hr : Linker.instructions ⟨d.labels, d.dialect.vocabulary.defaultsWrites⟩ 0
      d.instructions with
  | error fault => simp [hr, Except.map] at h
  | ok linked =>
    obtain rfl : linked.toArray = code := by simpa [hr, Except.map] using h
    obtain ⟨hkinds, hspec⟩ := Linker.instructions_spec _ 0 hr
    refine ⟨by simpa [Code.kinds] using hkinds, fun line hline => ?_⟩
    have hget : linked[line]? = some linked.toArray[line] := by simp
    obtain ⟨i, hi, hlinked⟩ := hspec line _ hget
    obtain ⟨hkind, hactions⟩ := Linker.instruction_spec hlinked
    refine ⟨i, hi, hkind.symm, fun slot => ?_⟩
    rw [Code.action_of_lt hline]
    simpa using hactions slot

theorem size_of_link (h : d.link = .ok code) : code.size = d.instructions.length := by
  rw [← Code.length_kinds, (link_lines h).1, List.length_map]

/-- A jump that fits is linked to a target that fits. -/
theorem link_target_fits {labels : Labels} {v : Vocabulary} {lineCount line : Nat} {goto : Goto}
    {target : Target} (hlabels : labels.Fit v lineCount) (hfits : goto.Fits lineCount)
    (h : goto.link labels line = .ok target) :
    (∀ next, target = .jump next → next < lineCount) ∧
      ∀ status, target = .exit status → status.toNat ≤ maxStatus := by
  cases goto with
  | line next =>
    obtain rfl : Target.jump next = target := by simpa [Goto.link] using h
    refine ⟨fun next' heq => ?_, by simp⟩
    obtain rfl := Target.jump.inj heq
    exact hfits
  | exit status =>
    obtain rfl : Target.exit status = target := by simpa [Goto.link] using h
    refine ⟨by simp, fun status' heq => ?_⟩
    obtain rfl := Target.exit.inj heq
    exact hfits
  | label name =>
    rw [Goto.link] at h
    split at h
    · next next hlookup =>
      obtain rfl : Target.jump next = target := by simpa using h
      refine ⟨fun next' heq => ?_, by simp⟩
      obtain rfl := Target.jump.inj heq
      obtain ⟨before, after, rfl, -⟩ := List.lookup_eq_some_iff.mp hlookup
      exact hlabels.lines (name, next) (by simp)
    · simp at h

theorem link_action_fits (hfits : d.Fits) (h : d.link = .ok code) (line : Nat) (slot : Slot) :
    (∀ next, (code.action line slot).target = .jump next → next < code.size) ∧
      ∀ status, (code.action line slot).target = .exit status → status.toNat ≤ maxStatus := by
  rcases Nat.lt_or_ge line code.size with hlt | hge
  · obtain ⟨i, hi, -, hlinked⟩ := (link_lines h).2 line hlt
    rw [size_of_link h]
    exact link_target_fits hfits.labels ((hfits.reads line i hi).fits slot)
      (Linker.action_spec (hlinked slot)).1
  · rw [Code.action_of_ge hge]
    refine ⟨by simp [Action.goOn], fun status heq => ?_⟩
    obtain rfl : 0 = status := by simpa [Action.goOn] using heq
    simp

theorem link_fallsThrough (hfits : d.Fits) (h : d.link = .ok code) : code.FallsThrough := by
  intro line slot hp
  have hlt := Code.lt_size_of_isPlaceholder hp
  obtain ⟨i, hi, hkind, hlinked⟩ := (link_lines h).2 line hlt
  have hplaceholder : i.kind = .placeholder := by
    rw [hkind]
    simpa [Code.isPlaceholder, hlt] using hp
  have hallows := hfits.placeholder i (List.mem_of_getElem? hi) hplaceholder
  have hdefaults := Dialect.defaultsWrites_eq_false hallows
  have haction := (hfits.reads line i hi).placeholder hplaceholder slot
  obtain ⟨htarget, hdirection, hwrite⟩ := Linker.action_spec (hlinked slot)
  rw [haction] at htarget hdirection hwrite
  have hnext : (code.action line slot).target = code.following line := by
    rw [Code.following, size_of_link h]
    rw [Action.goOn, LineContext.nextLine] at htarget
    split at htarget
    · next hlast => rw [if_pos hlast]; simpa [Goto.link] using htarget.symm
    · next hlast => rw [if_neg hlast]; simpa [Goto.link] using htarget.symm
  calc
    code.action line slot
        = ⟨(code.action line slot).write, (code.action line slot).direction,
            (code.action line slot).target⟩ := rfl
    _ = .goOn (code.following line) := by rw [hwrite hdefaults, hdirection, hnext]; rfl

theorem linked_of_link (hfits : d.Fits) (h : d.link = .ok code) : code.Linked where
  inRange line slot := (link_action_fits hfits h line slot).1
  statuses line slot := (link_action_fits hfits h line slot).2
  fallsThrough := link_fallsThrough hfits h

end Draft

/-! ## Collapsing and folding -/

namespace Code

/-- What is known of a code once placeholders are out of the way of every
jump. -/
structure Sound (code : Code) : Prop where
  jumps : ∀ line slot next, (code.action line slot).target = .jump next → code.CanRun next
  statuses : ∀ line slot status, (code.action line slot).target = .exit status →
    status.toNat ≤ maxStatus
  placeholders : ∀ line slot, code.isPlaceholder line = true →
    code.action line slot = .goOn (code.landing (line + 1))

variable {code folded : Code} {strictness : Strictness}

theorem Sound.inRange (h : code.Sound) : code.InRange :=
  fun line slot next hnext => (h.jumps line slot next hnext).1

/-- Where lines land depends on the placeholders alone. -/
theorem landing_of_placeholders {code' : Code} (hsize : code.size = code'.size)
    (h : ∀ line, code.isPlaceholder line = code'.isPlaceholder line) (line : Nat) :
    code.landing line = code'.landing line := by
  rw [landing, landing, hsize, funext h]

theorem landing_congr {code' : Code} (h : code.kinds = code'.kinds) (line : Nat) :
    code.landing line = code'.landing line :=
  landing_of_placeholders (size_congr h) (isPlaceholder_congr h) line

theorem settle_following (code : Code) (line : Nat) :
    code.settle (code.following line) = code.landing (line + 1) := by
  unfold following
  split
  · rfl
  · rw [landing_of_ge (by omega)]
    rfl

/-- A settled target is an exit of before or a line that can run. -/
theorem settle_cases (code : Code) (t : Target) :
    (∃ status, code.settle t = .exit status ∧ (t = .exit status ∨ status = 0)) ∨
      ∃ next, code.settle t = .jump next ∧ code.CanRun next := by
  cases t with
  | exit status => exact .inl ⟨status, rfl, .inl rfl⟩
  | jump line =>
    rcases code.landing_cases line with hexit | hjump
    · exact .inl ⟨0, hexit, .inr rfl⟩
    · exact .inr hjump

theorem Linked.collapse (h : code.Linked) : code.collapse.Sound := by
  have hkinds : code.collapse.kinds = code.kinds := kinds_collapse h.fallsThrough.oneTarget
  have haction := collapse_action h.fallsThrough h.inRange
  refine ⟨?_, ?_, ?_⟩
  · intro line slot next hnext
    rw [haction] at hnext
    rw [canRun_congr hkinds]
    rcases code.settle_cases (code.action line slot).target with ⟨_, hexit, -⟩ | ⟨_, hjump, hrun⟩
    · simp [hexit] at hnext
    · obtain rfl := Target.jump.inj (hjump.symm.trans hnext)
      exact hrun
  · intro line slot status hstatus
    rw [haction] at hstatus
    rcases code.settle_cases (code.action line slot).target with ⟨_, hexit, hcases⟩ | ⟨_, hjump, -⟩
    · obtain rfl := Target.exit.inj (hexit.symm.trans hstatus)
      rcases hcases with heq | rfl
      · exact h.statuses line slot _ heq
      · simp
    · simp [hjump] at hstatus
  · intro line slot hp
    rw [isPlaceholder_congr hkinds] at hp
    rw [haction, landing_congr hkinds, ← settle_following, h.fallsThrough line slot hp]
    rfl

/-- A chain ends on the target of one of its actions. -/
theorem EndsOn.exists_target {b : Branch} {last : Action Target} (h : code.EndsOn b last) :
    ∃ c : Branch, last.target = (c.action code).target := by
  induction h with
  | here _ => exact ⟨_, rfl⟩
  | on _ _ ih => exact ih

theorem fold_target (hrange : code.InRange) (h : code.fold strictness = .ok folded) (line : Nat)
    (slot : Slot) :
    ∃ line' slot', (folded.action line slot).target = (code.action line' slot').target := by
  have haction := fold_action hrange h (Branch.start line slot)
  rw [Branch.action_start] at haction
  rcases haction with hsame | hends
  · exact ⟨line, slot, by rw [hsame, Branch.action_start]⟩
  · obtain ⟨c, hc⟩ := hends.exists_target
    exact ⟨c.line, Slot.of c.color, hc⟩

theorem Sound.fold (h : code.Sound) (hfold : code.fold strictness = .ok folded) :
    folded.Sound := by
  have hkinds := kinds_fold h.inRange hfold
  refine ⟨?_, ?_, ?_⟩
  · intro line slot next hnext
    obtain ⟨line', slot', heq⟩ := fold_target h.inRange hfold line slot
    rw [canRun_congr hkinds]
    exact h.jumps line' slot' next (heq ▸ hnext)
  · intro line slot status hstatus
    obtain ⟨line', slot', heq⟩ := fold_target h.inRange hfold line slot
    exact h.statuses line' slot' status (heq ▸ hstatus)
  · intro line slot hp
    rw [isPlaceholder_congr hkinds] at hp
    have hnone : ∀ l t, (code.action l t).target ≠ .jump line := by
      intro l t hjump
      have hrun := (h.jumps l t line hjump).2
      simp [hp] at hrun
    rw [fold_placeholder h.inRange hfold hp hnone, landing_congr hkinds]
    exact h.placeholders line slot hp

end Code

/-! ## Compiled programs -/

namespace Program

theorem compile_eq_ok_iff {options : CompileOptions} {source : String} {p : Program} :
    compile options source = .ok p ↔
      ∃ d linked code, Draft.ofSource options.dialect source = .ok d ∧ d.link = .ok linked ∧
        passes options linked = .ok code ∧ p = ⟨code, d.labels, d.count, options.dialect⟩ := by
  unfold compile
  constructor
  · intro h
    obtain ⟨d, hd, h⟩ := bind_eq_ok.mp h
    obtain ⟨linked, hlinked, h⟩ := bind_eq_ok.mp h
    obtain ⟨code, hcode, h⟩ := bind_eq_ok.mp h
    exact ⟨d, linked, code, hd, hlinked, hcode, (Except.ok.inj h).symm⟩
  · rintro ⟨d, linked, code, hd, hlinked, hcode, rfl⟩
    exact bind_eq_ok.mpr ⟨d, hd, bind_eq_ok.mpr ⟨linked, hlinked,
      bind_eq_ok.mpr ⟨code, hcode, rfl⟩⟩⟩

theorem linked_of_ofSource {dialect : Dialect} {source : String} {d : Draft} {linked : Code}
    (hd : Draft.ofSource dialect source = .ok d) (hlinked : d.link = .ok linked) :
    linked.Linked :=
  Draft.linked_of_link (Draft.ofSource_spec hd).2.2 hlinked

theorem passes_of_optimize {options : CompileOptions} {linked : Code}
    (h : options.optimize = true) :
    passes options linked = linked.collapse.fold options.effectiveStrictness := by
  simp [passes, h]

/-- The passes keep the kinds of a linked code and leave a sound one. -/
theorem passes_spec {options : CompileOptions} {linked code : Code} (hlinked : linked.Linked)
    (h : passes options linked = .ok code) : code.kinds = linked.kinds ∧ code.Sound := by
  have hkinds := Code.kinds_collapse hlinked.fallsThrough.oneTarget
  have hsound := hlinked.collapse
  unfold passes at h
  dsimp only at h
  split at h
  · exact ⟨(Code.kinds_fold hsound.inRange h).trans hkinds, hsound.fold h⟩
  · obtain rfl := Except.ok.inj h
    exact ⟨hkinds, hsound⟩

theorem sound_of_compile {options : CompileOptions} {source : String} {p : Program}
    (h : compile options source = .ok p) : p.code.Sound := by
  obtain ⟨d, linked, code, hd, hlinked, hcode, rfl⟩ := compile_eq_ok_iff.mp h
  exact (passes_spec (linked_of_ofSource hd hlinked) hcode).2

/-! Following placeholders stops at an exit and at a line that can run. -/

theorem follow_exit (code : Code) (steps : Nat) (status : Status) :
    follow code steps (.exit status) = .exit status := by
  cases steps <;> rfl

theorem follow_jump (code : Code) (steps line : Nat) :
    follow code (steps + 1) (.jump line) =
      if line < code.size then
        if code.isPlaceholder line then follow code steps (code.action line .white).target
        else .jump line
      else .exit 0 := by
  rw [follow]
  by_cases hlt : line < code.size
  · simp only [hlt, Array.getElem?_eq_getElem, Code.isPlaceholder, Code.action]
    cases code[line].kind <;> simp [Instruction.action]
  · simp [hlt]

theorem follow_canRun {code : Code} {line : Nat} (h : code.CanRun line) (steps : Nat) :
    follow code steps (.jump line) = .jump line := by
  cases steps with
  | zero => rfl
  | succ steps => simp [follow_jump, h.1, h.2]

theorem follow_landing (code : Code) (steps line : Nat) :
    follow code steps (code.landing line) = code.landing line := by
  rcases code.landing_cases line with hexit | ⟨next, hjump, hrun⟩
  · rw [hexit, follow_exit]
  · rw [hjump, follow_canRun hrun]

/-- A run of a sound program begins on the first line that holds an
instruction. -/
theorem entry_eq_landing {p : Program} (h : p.code.Sound) : p.entry = p.code.landing 0 := by
  rw [entry, follow_jump]
  split
  · next hlt =>
    rw [Code.landing_of_lt hlt]
    split
    · next hp =>
      rw [h.placeholders 0 .white hp]
      exact follow_landing _ _ _
    · rfl
  · next hge => rw [Code.landing_of_ge (by omega)]

/-- Everything that a run, a listing and an exit code rely on in a compiled
program. -/
structure WellFormed (dialect : Dialect) (source : String) (p : Program) : Prop where
  /-- One line for each line of the source. -/
  size_eq : p.code.size = source.toList.count '\n' + 1
  /-- Jumps lead to lines that exist and hold an instruction. -/
  jumps : ∀ line slot next, (p.code.action line slot).target = .jump next →
    next < p.code.size ∧ p.code.isPlaceholder next = false
  statuses : ∀ line slot status, (p.code.action line slot).target = .exit status →
    status.toNat ≤ 2 ^ 31 - 1
  count_eq : p.count = p.code.kinds.countP (· ≠ .placeholder)
  labels_lt : ∀ entry ∈ p.labels, entry.2 < p.code.size
  labels_free : ∀ entry ∈ p.labels, dialect.vocabulary.isReserved entry.1 = false
  /-- No name is declared twice, and no line has two labels. -/
  labels_nodup : (p.labels.map Prod.fst).Nodup ∧ (p.labels.map Prod.snd).Nodup
  /-- A placeholder only goes on, to the next line that holds an instruction
  or to the end. -/
  placeholders : ∀ line slot, p.code.isPlaceholder line = true →
    p.code.action line slot = .goOn (p.code.landing (line + 1))
  /-- A run begins on the first line that holds an instruction, or ends. -/
  entry_eq : p.entry = p.code.landing 0
  dialect_eq : p.dialect = dialect
  binary : dialect = .binary → ∀ line, p.code.isPlaceholder line = false

/-- Every compiled program is well formed. -/
theorem compile_wellFormed {options : CompileOptions} {source : String} {p : Program}
    (h : compile options source = .ok p) : p.WellFormed options.dialect source := by
  obtain ⟨d, linked, code, hd, hlinked, hcode, rfl⟩ := compile_eq_ok_iff.mp h
  obtain ⟨hdialect, hlength, hfits⟩ := Draft.ofSource_spec hd
  obtain ⟨hkinds, hsound⟩ := passes_spec (Draft.linked_of_link hfits hlinked) hcode
  have hdraft : code.kinds = d.instructions.map Instruction.kind :=
    hkinds.trans (Draft.link_lines hlinked).1
  have hsize : code.size = d.instructions.length := by
    rw [← Code.length_kinds, hdraft, List.length_map]
  have hlabels := hfits.labels
  rw [hdialect, ← hsize] at hlabels
  exact {
    size_eq := hsize.trans hlength
    jumps := hsound.jumps
    statuses := hsound.statuses
    count_eq := by
      rw [hdraft, List.countP_map]
      rfl
    labels_lt := hlabels.lines
    labels_free := hlabels.names
    labels_nodup := ⟨hlabels.nodup_names, hlabels.nodup_lines⟩
    placeholders := hsound.placeholders
    entry_eq := entry_eq_landing hsound
    dialect_eq := rfl
    binary := by
      intro hbinary line
      rw [Code.isPlaceholder_eq_kinds, hdraft, List.getElem?_map]
      cases hi : d.instructions[line]? with
      | none => simp
      | some i =>
        have hallows := hfits.placeholder i (List.mem_of_getElem? hi)
        rw [hdialect, hbinary] at hallows
        have hkind : i.kind ≠ .placeholder := fun hkind => Bool.false_ne_true (hallows hkind)
        simpa using hkind }

/-- Blank lines in front, between and behind, two labels, and a chain that is
folded. -/
theorem compile_wellFormed_blank_lines :
    ∃ p, compile ⟨.palette, true, none⟩
        "\na: if white goto b else exit 3\n\nb: write red right goto a\n" = .ok p ∧
      p.WellFormed .palette "\na: if white goto b else exit 3\n\nb: write red right goto a\n" := by
  obtain ⟨p, hp⟩ : ∃ p, compile ⟨.palette, true, none⟩
      "\na: if white goto b else exit 3\n\nb: write red right goto a\n" = .ok p := ⟨_, rfl⟩
  exact ⟨p, hp, compile_wellFormed hp⟩

end Program

end PixelTurtle
