/-
PixelTurtle.Proofs.TwoColors — in the binary dialect, default writes are
invisible.

Every action that writes nothing is given the stand-in color of its slot when a
binary source is linked. On a canvas of white and black pixels the stand-in is
the pixel that is there already, but the passes work on the code with the
default writes in it, and folding carries writes from action to action.
`Code.Defaulted` says that one code is another with default writes, and each
pass keeps it:

* `LineContext.instruction_holds`, `Code.DrawsIn` — a program writes no colors
  but those of its dialect, neither as it is read nor after the passes.
* `Linker.link_defaulted` — linking with default writes is linking without, and
  giving them afterwards.
* `Code.Defaulted.endsOn` — a chain that carries one of the two colors goes
  through the same branches with default writes and without.
* `Program.compile_binary_twoColored` — so do the programs, on a canvas of the
  two colors.
-/
import PixelTurtle.Proofs.Exchange
import PixelTurtle.Proofs.LineByLine
import PixelTurtle.Proofs.Walks

namespace PixelTurtle

/-! ## Colors of a dialect -/

theorem mem_of_lookup_eq_some {α β : Type} [BEq α] [LawfulBEq α] {entries : List (α × β)} {key : α}
    {value : β} (h : entries.lookup key = some value) : value ∈ entries.map Prod.snd := by
  obtain ⟨before, after, rfl, -⟩ := List.lookup_eq_some_iff.mp h
  simp

/-- The colors that a dialect has words for are its inks. -/
theorem Dialect.mem_inks_of_color? {dialect : Dialect} {word : String} {color : Color}
    (h : dialect.vocabulary.color? word = some color) : color ∈ dialect.inks := by
  cases dialect with
  | palette => cases color <;> decide
  | binary =>
    rw [Vocabulary.color?, Vocabulary.find?] at h
    split at h
    · exact mem_of_lookup_eq_some h
    · exact mem_of_lookup_eq_some h

namespace LineContext

variable {ctx : LineContext} {ws left : Words}

/-- An action that a line may hold: one that was read from some of its words, or
the one of a missing alternative. -/
def Holds (ctx : LineContext) (a : Action Goto) : Prop :=
  a = .goOn ctx.nextLine ∨ ∃ otherwise ws left, ctx.action otherwise ws = .ok (a, left)

theorem holds_requiredAction {keyword : String} {otherwise : Goto} {a : Action Goto}
    (h : ctx.requiredAction keyword otherwise ws = .ok (a, left)) : ctx.Holds a :=
  .inr ⟨_, _, _, action_of_requiredAction h⟩

theorem holds_alternative {a : Action Goto} (h : ctx.alternative ws = .ok (a, left)) :
    ctx.Holds a := by
  unfold alternative at h
  split at h
  · exact holds_requiredAction h
  · obtain ⟨rfl, -⟩ : Action.goOn ctx.nextLine = a ∧ ws = left := by simpa using h
    exact .inl rfl

theorem holds_conditional {keyword : String} {otherwise : Goto} {i : Instruction Goto}
    (h : ctx.conditional keyword otherwise ws = .ok (i, left)) (slot : Slot) :
    ctx.Holds (i.action slot) := by
  unfold conditional at h
  obtain ⟨⟨condition, ws₁⟩, -, h⟩ := bind_eq_ok.mp h
  obtain ⟨⟨consequent, ws₂⟩, hconsequent, h⟩ := bind_eq_ok.mp h
  obtain ⟨⟨alternative, ws₃⟩, halternative, h⟩ := bind_eq_ok.mp h
  have hc := holds_requiredAction hconsequent
  have ha := holds_alternative halternative
  dsimp only at h
  split at h
  all_goals
    obtain ⟨rfl, -⟩ : _ = i ∧ ws₃ = left := by simpa [pure, Except.pure] using h
    cases slot <;> assumption

theorem holds_unconditional {i : Instruction Goto} (h : ctx.unconditional ws = .ok (i, left))
    (slot : Slot) : ctx.Holds (i.action slot) := by
  unfold unconditional at h
  obtain ⟨⟨a, ws'⟩, haction, h⟩ := bind_eq_ok.mp h
  obtain ⟨rfl, rfl⟩ : _ = i ∧ ws' = left := by simpa [pure, Except.pure] using h
  cases slot <;> exact .inr ⟨_, _, _, haction⟩

theorem holds_body {i : Instruction Goto} (h : ctx.body ws = .ok (i, left)) (slot : Slot) :
    ctx.Holds (i.action slot) := by
  unfold body at h
  split at h
  · exact holds_conditional h slot
  · split at h
    · exact holds_conditional h slot
    · exact holds_unconditional h slot

theorem holds_wholeBody {i : Instruction Goto} (h : ctx.wholeBody ws = .ok i) (slot : Slot) :
    ctx.Holds (i.action slot) := by
  unfold wholeBody at h
  obtain ⟨⟨j, left⟩, hbody, h⟩ := bind_eq_ok.mp h
  dsimp only at h
  split at h
  · obtain rfl : j = i := by simpa [pure, Except.pure] using h
    exact holds_body hbody slot
  · split at h <;> simp [objectTo] at h

theorem instruction_holds {labels labels' : Labels} {tokens : List Token} {i : Instruction Goto}
    (h : ctx.instruction labels tokens = .ok (i, labels')) (slot : Slot) :
    ctx.Holds (i.action slot) := by
  have hbody : ∀ {ws} {declared : Labels},
      (do let j ← ctx.wholeBody ws; return (j, declared)) = .ok (i, labels') →
      ctx.Holds (i.action slot) := by
    intro ws declared hws
    obtain ⟨j, hj, hws⟩ := bind_eq_ok.mp hws
    obtain ⟨rfl, -⟩ : j = i ∧ declared = labels' := by simpa [pure, Except.pure] using hws
    exact holds_wholeBody hj slot
  unfold LineContext.instruction at h
  dsimp only at h
  split at h
  · split at h
    · exact hbody h
    · simp [missing] at h
  · simp [missing] at h
  · obtain ⟨declared, -, h⟩ := bind_eq_ok.mp h
    split at h
    · simp [missing] at h
    · exact hbody h
  · exact hbody h

/-- What a line writes is a color of its vocabulary. -/
theorem Holds.write {a : Action Goto} (h : ctx.Holds a) {color : Color}
    (hwrite : a.write = some color) : ∃ word, ctx.vocabulary.color? word = some color := by
  rcases h with rfl | ⟨otherwise, ws, left, haction⟩
  · simp [Action.goOn] at hwrite
  · unfold LineContext.action at haction
    obtain ⟨⟨write, ws₁⟩, hread, haction⟩ := bind_eq_ok.mp haction
    obtain ⟨⟨direction, ws₂⟩, -, haction⟩ := bind_eq_ok.mp haction
    obtain ⟨⟨target, ws₃⟩, -, haction⟩ := bind_eq_ok.mp haction
    obtain ⟨rfl, -⟩ : (⟨write, direction, target⟩ : Action Goto) = a ∧ ws₃ = left := by
      simpa [pure, Except.pure] using haction
    obtain rfl : write = some color := hwrite
    unfold LineContext.write at hread
    split at hread
    · obtain ⟨⟨found, ws'⟩, hcolor, hread⟩ := bind_eq_ok.mp hread
      obtain ⟨rfl, -⟩ : found = color ∧ ws' = ws₁ := by simpa [pure, Except.pure] using hread
      unfold LineContext.color at hcolor
      split at hcolor
      · simp [missing] at hcolor
      · next word _ =>
        split at hcolor
        · next hfound =>
          obtain ⟨rfl, -⟩ : _ = found ∧ _ = ws' := by simpa using hcolor
          exact ⟨word, hfound⟩
        · simp [objectTo] at hcolor
    · simp at hread

end LineContext

/-- No line of a source writes a color that its dialect does not have. -/
theorem Reader.Reads.mem_inks {dialect : Dialect} {lineCount : Nat} {s s' : Reader}
    {texts : List (List Char)} {is : List (Instruction Goto)}
    (h : Reads dialect.vocabulary lineCount s texts is s') {i : Instruction Goto} (hi : i ∈ is)
    (slot : Slot) {color : Color} (hwrite : (i.action slot).write = some color) :
    color ∈ dialect.inks := by
  induction h with
  | nil s => simp at hi
  | cons first _ ih =>
    rcases List.mem_cons.mp hi with rfl | hi
    · obtain ⟨word, hword⟩ := (LineContext.instruction_holds (read_spec first).1 slot).write hwrite
      exact Dialect.mem_inks_of_color? hword
    · exact ih hi

namespace Code

/-- Every color that the code writes is one of the inks. -/
def DrawsIn (inks : List Color) (code : Code) : Prop :=
  ∀ line slot color, (code.action line slot).write = some color → color ∈ inks

variable {code : Code} {inks : List Color}

theorem DrawsIn.collapse (h : code.DrawsIn inks) (hlinked : code.Linked) :
    code.collapse.DrawsIn inks := by
  intro line slot color hwrite
  rw [collapse_action hlinked.fallsThrough hlinked.inRange] at hwrite
  exact h line slot color hwrite

/-- A chain that carries one of the inks goes on with one of them. -/
theorem DrawsIn.next? (h : code.DrawsIn inks) (hrange : code.InRange) {b c : Branch}
    (hcolor : b.color ∈ inks) (hnext : b.next? code = some c) :
    c.color ∈ inks ∧ c.line < code.size := by
  obtain ⟨hjump, hcarried⟩ := Branch.next?_eq_some_iff.mp hnext
  refine ⟨?_, hrange _ _ _ (Action.stillJump?_eq_some.mp hjump).2⟩
  rw [← hcarried]
  cases hwrite : (b.action code).write with
  | none => exact hcolor
  | some color => exact h _ _ _ hwrite

/-- A chain ends with a write of one of its actions. -/
theorem DrawsIn.endsOn (h : code.DrawsIn inks) {b : Branch} {last : Action Target}
    (hends : code.EndsOn b last) {color : Color} (hwrite : last.write = some color) :
    color ∈ inks := by
  induction hends with
  | here _ => exact h _ _ _ hwrite
  | on _ _ ih =>
    rcases Option.or_eq_some_iff.mp hwrite with hlast | ⟨-, hbefore⟩
    · exact ih hlast
    · exact h _ _ _ hbefore

theorem DrawsIn.fold (h : code.DrawsIn inks) (hrange : code.InRange) {strictness : Strictness}
    {folded : Code} (hfold : code.fold strictness = .ok folded) : folded.DrawsIn inks := by
  intro line slot color hwrite
  have haction := fold_action hrange hfold (Branch.start line slot)
  rw [Branch.action_start, Branch.action_start] at haction
  rcases haction with hsame | hends
  · exact h line slot color (hsame ▸ hwrite)
  · exact h.endsOn hends hwrite

end Code

/-! ## Default writes -/

/-- An instruction with the default write of its slot in every action that has
none. -/
def Instruction.defaulted (i : Instruction Target) : Instruction Target :=
  ⟨i.white.carry (some Slot.white.standIn), i.color.carry (some Slot.color.standIn), i.kind⟩

namespace Linker

variable (labels : Labels)

theorem action_defaulted (line : Nat) (slot : Slot) (a : Action Goto) :
    action ⟨labels, true⟩ line slot a =
      (action ⟨labels, false⟩ line slot a).map fun linked => linked.carry (some slot.standIn) := by
  unfold action
  cases a.target.link labels line with
  | error fault => rfl
  | ok target =>
    cases a.write <;> simp [bind, Except.bind, pure, Except.pure, Except.map, Action.carry]

theorem instruction_defaulted (line : Nat) (i : Instruction Goto) :
    instruction ⟨labels, true⟩ line i =
      (instruction ⟨labels, false⟩ line i).map Instruction.defaulted := by
  unfold instruction
  rw [action_defaulted, action_defaulted]
  cases action ⟨labels, false⟩ line .white i.white with
  | error fault => rfl
  | ok white => cases action ⟨labels, false⟩ line .color i.color <;> rfl

theorem instructions_defaulted (is : List (Instruction Goto)) (line : Nat) :
    instructions ⟨labels, true⟩ line is =
      (instructions ⟨labels, false⟩ line is).map (List.map Instruction.defaulted) := by
  induction is generalizing line with
  | nil => rfl
  | cons i rest ih =>
    rw [instructions, instructions, instruction_defaulted, ih]
    cases instruction ⟨labels, false⟩ line i with
    | error fault => rfl
    | ok linked => cases instructions ⟨labels, false⟩ (line + 1) rest <;> rfl

/-- Default writes may as well be given after linking. -/
theorem link_defaulted (is : List (Instruction Goto)) :
    link ⟨labels, true⟩ is = (link ⟨labels, false⟩ is).map (Array.map Instruction.defaulted) := by
  unfold link
  rw [instructions_defaulted]
  cases instructions ⟨labels, false⟩ 0 is with
  | error fault => rfl
  | ok linked => simp [Except.map]

end Linker

/-- Where a pixel is one of the two stand-ins, it is the one of its slot. -/
theorem Slot.standIn_of {color : Color} (h : color ∈ Dialect.binary.inks) :
    (Slot.of color).standIn = color := by
  rcases List.mem_pair.mp h with rfl | rfl <;> rfl

theorem Slot.standIn_mem (slot : Slot) : slot.standIn ∈ Dialect.binary.inks := by
  cases slot <;> decide

namespace Code

/-- The one code is the other with default writes. -/
structure Defaulted (plain code : Code) : Prop where
  kinds : code.kinds = plain.kinds
  action : ∀ line slot, line < plain.size →
    code.action line slot = (plain.action line slot).carry (some slot.standIn)

theorem defaulted_map (plain : Code) : plain.Defaulted (plain.map Instruction.defaulted) where
  kinds := by simp [Code.kinds, Function.comp_def, Instruction.defaulted]
  action line slot h := by
    rw [action_of_lt h, action_of_lt (by simpa using h), Array.getElem_map]
    cases slot <;> rfl

namespace Defaulted

variable {plain code plain' code' : Code} {b : Branch} {last : Action Target}
  {strictness : Strictness}

theorem size (h : Defaulted plain code) : code.size = plain.size :=
  size_congr h.kinds

/-- Default writes do not change where an action moves and goes on. -/
theorem steers (h : Defaulted plain code) (line : Nat) (slot : Slot) :
    (code.action line slot).direction = (plain.action line slot).direction ∧
      (code.action line slot).target = (plain.action line slot).target := by
  rcases Nat.lt_or_ge line plain.size with hlt | hge
  · rw [h.action line slot hlt]
    exact ⟨rfl, rfl⟩
  · rw [action_of_ge hge, action_of_ge (h.size ▸ hge)]
    exact ⟨rfl, rfl⟩

/-- Default writes are made in the two colors. -/
theorem drawsIn (h : Defaulted plain code) (hplain : plain.DrawsIn Dialect.binary.inks) :
    code.DrawsIn Dialect.binary.inks := by
  intro line slot color hwrite
  rcases Nat.lt_or_ge line plain.size with hlt | hge
  · rw [h.action line slot hlt] at hwrite
    rcases Option.or_eq_some_iff.mp hwrite with hwrite | ⟨-, hdefault⟩
    · exact hplain line slot color hwrite
    · obtain rfl := Option.some.inj hdefault
      exact slot.standIn_mem
  · rw [action_of_ge (h.size ▸ hge)] at hwrite
    simp [Action.goOn] at hwrite

/-- Without placeholders, a code is linked whether it has default writes or
not. -/
theorem linked (h : Defaulted plain code) (hnone : ∀ line, plain.isPlaceholder line = false)
    (hcode : code.Linked) : plain.Linked where
  inRange line slot next hnext := by
    rw [← (h.steers line slot).2] at hnext
    exact h.size ▸ hcode.inRange line slot next hnext
  statuses line slot status hstatus := by
    rw [← (h.steers line slot).2] at hstatus
    exact hcode.statuses line slot status hstatus
  fallsThrough line slot hp := by simp [hnone] at hp

theorem collapse (h : Defaulted plain code) (hplain : plain.Linked) (hcode : code.Linked) :
    Defaulted plain.collapse code.collapse := by
  have hkinds := kinds_collapse hplain.fallsThrough.oneTarget
  refine ⟨?_, fun line slot hlt => ?_⟩
  · rw [kinds_collapse hcode.fallsThrough.oneTarget, hkinds, h.kinds]
  · rw [size_congr hkinds] at hlt
    have hsettle : code.settle (plain.action line slot).target =
        plain.settle (plain.action line slot).target := by
      cases (plain.action line slot).target with
      | exit status => rfl
      | jump next => exact landing_congr h.kinds next
    rw [collapse_action hplain.fallsThrough hplain.inRange,
      collapse_action hcode.fallsThrough hcode.inRange, (h.steers line slot).2, hsettle,
      h.action line slot hlt]
    rfl

/-! ### Chains

A chain that starts at a stand-in carries one of the two colors all along, and a
default write never changes which. -/

section Chains

variable (h : Defaulted plain code) (hplain : plain.DrawsIn Dialect.binary.inks)
  (hrange : plain.InRange)
include h

theorem action_branch (hcolor : b.color ∈ Dialect.binary.inks) (hline : b.line < plain.size) :
    b.action code = (b.action plain).carry (some b.color) := by
  rw [Branch.action, h.action _ _ hline, Slot.standIn_of hcolor]
  rfl

theorem next? (hcolor : b.color ∈ Dialect.binary.inks) (hline : b.line < plain.size) :
    b.next? code = b.next? plain := by
  rw [Branch.next?, Branch.next?, h.action_branch hcolor hline, Action.stillJump?_carry]
  cases hwrite : (b.action plain).write <;> simp [Action.carry, hwrite]

include hplain hrange

/-- With default writes a chain ends on the same action. If nothing was written
on the way, the color that it started with is. -/
theorem endsOn (hcolor : b.color ∈ Dialect.binary.inks) (hline : b.line < plain.size)
    (hends : plain.EndsOn b last) : code.EndsOn b (last.carry (some b.color)) := by
  induction hends with
  | here hnone =>
    rw [← h.action_branch hcolor hline]
    exact .here (by rw [h.next? hcolor hline, hnone])
  | @on b c last hnext _ ih =>
    obtain ⟨hcolor', hline'⟩ := hplain.next? hrange hcolor hnext
    have hwritten : c.color = (b.action plain).write.getD b.color :=
      (Branch.next?_eq_some_iff.mp hnext).2.symm
    have hcarry : (last.carry (b.action plain).write).carry (some b.color) =
        (last.carry (some c.color)).carry (b.action code).write := by
      rw [Action.carry_carry, Action.carry_carry, hwritten]
      cases (b.action plain).write <;> rfl
    rw [hcarry]
    exact .on (by rw [h.next? hcolor hline, hnext]) (ih hcolor' hline')

/-- With default writes, only a chain ends that ends without. -/
theorem exists_endsOn (hcolor : b.color ∈ Dialect.binary.inks) (hline : b.line < plain.size)
    (hends : code.EndsOn b last) : ∃ last', plain.EndsOn b last' := by
  induction hends with
  | here hnone =>
    rw [h.next? hcolor hline] at hnone
    exact ⟨_, .here hnone⟩
  | on hnext _ ih =>
    rw [h.next? hcolor hline] at hnext
    obtain ⟨hcolor', hline'⟩ := hplain.next? hrange hcolor hnext
    obtain ⟨last', hlast'⟩ := ih hcolor' hline'
    exact ⟨_, .on hnext hlast'⟩

/-- Folding that accepts the code with default writes accepts it without. -/
theorem exists_fold (hcode : code.InRange) (hfold : code.fold strictness = .ok code') :
    ∃ plain', plain.fold strictness = .ok plain' := by
  refine exists_fold_of_ends hrange ?_
  rintro rfl line slot hrun
  have hrun' : code.CanRun line := (canRun_congr h.kinds line).mpr hrun
  rcases fold_settled hcode hfold (b := .start line slot) hrun' with hends | ⟨-, hpermissive⟩
  · exact h.exists_endsOn hplain hrange slot.standIn_mem hrun.1 hends
  · simp at hpermissive

/-- Folding comes to the same action but for the default write. -/
theorem fold_action (hcode : code.InRange) (hplainFold : plain.fold strictness = .ok plain')
    (hfold : code.fold strictness = .ok code') {line : Nat} (hrun : plain.CanRun line)
    (slot : Slot) :
    code'.action line slot = (plain'.action line slot).carry (some slot.standIn) := by
  have hrun' : code.CanRun line := (canRun_congr h.kinds line).mpr hrun
  rw [← Branch.action_start code', ← Branch.action_start plain']
  refine fold_transfer (f := fun a => a.carry (some slot.standIn)) hrange hcode hplainFold hfold
    hrun hrun' (h.action_branch slot.standIn_mem hrun.1) ?_ ?_
  · intro last hends
    exact h.endsOn hplain hrange slot.standIn_mem hrun.1 hends
  · intro hspins last hends
    obtain ⟨last', hlast'⟩ := h.exists_endsOn hplain hrange slot.standIn_mem hrun.1 hends
    exact hspins last' hlast'

theorem fold (hnone : ∀ line, plain.isPlaceholder line = false) (hcode : code.InRange)
    (hplainFold : plain.fold strictness = .ok plain') (hfold : code.fold strictness = .ok code') :
    Defaulted plain' code' := by
  have hkinds := kinds_fold hrange hplainFold
  refine ⟨?_, fun line slot hlt => ?_⟩
  · rw [kinds_fold hcode hfold, hkinds, h.kinds]
  · rw [size_congr hkinds] at hlt
    exact h.fold_action hplain hrange hcode hplainFold hfold ⟨hlt, hnone line⟩ slot

end Chains

end Defaulted

end Code

/-! ## Canvases -/

namespace Canvas

/-- Every pixel is of one of the inks. -/
def DrawnIn (inks : List Color) (canvas : Canvas) : Prop :=
  ∀ color ∈ canvas.pixels, color ∈ inks

variable {canvas : Canvas}

theorem DrawnIn.pixelAt (h : canvas.DrawnIn Dialect.binary.inks) (offset : Nat) :
    canvas.pixelAt offset ∈ Dialect.binary.inks := by
  rw [Canvas.pixelAt, Array.getD_eq_getD_getElem?]
  cases hpixel : canvas.pixels[offset]? with
  | none => decide
  | some color => exact h color (Array.mem_of_getElem? hpixel)

theorem DrawnIn.put {inks : List Color} (h : canvas.DrawnIn inks) {color : Color}
    (hcolor : color ∈ inks) (offset : Nat) : (canvas.put offset color).DrawnIn inks := by
  intro pixel hpixel
  rcases Array.mem_or_eq_of_mem_setIfInBounds hpixel with hbefore | rfl
  · exact h pixel hbefore
  · exact hcolor

/-- Painting a pixel in its own color changes nothing. -/
theorem put_pixelAt (canvas : Canvas) (offset : Nat) :
    canvas.put offset (canvas.pixelAt offset) = canvas := by
  have hpixels : canvas.pixels.setIfInBounds offset (canvas.pixelAt offset) = canvas.pixels := by
    refine Array.ext_getElem? fun i => ?_
    simp only [Canvas.pixelAt, Array.getElem?_setIfInBounds, Array.getD_eq_getD_getElem?]
    split
    · next heq =>
      subst heq
      split
      · next hlt => simp [hlt]
      · next hge => simp [hge]
    · rfl
  simp [put, hpixels]

end Canvas

/-! ## Programs -/

namespace Program

variable {options : CompileOptions}

/-- The passes keep what the two codes have in common. -/
theorem passes_defaulted {plain linked code : Code} (h : plain.Defaulted linked)
    (hnone : ∀ line, plain.isPlaceholder line = false)
    (hplain : plain.DrawsIn Dialect.binary.inks) (hlinked : linked.Linked)
    (hcode : passes options linked = .ok code) :
    ∃ passed, passes options plain = .ok passed ∧ passed.Defaulted code ∧
      passed.DrawsIn Dialect.binary.inks := by
  have hplainLinked := h.linked hnone hlinked
  have hcollapse := h.collapse hplainLinked hlinked
  have hdraws := hplain.collapse hplainLinked
  have hrange := hplainLinked.collapse.inRange
  have hkinds := Code.kinds_collapse hplainLinked.fallsThrough.oneTarget
  unfold passes at hcode ⊢
  dsimp only at hcode ⊢
  split at hcode
  · next hoptimize =>
    rw [if_pos hoptimize]
    obtain ⟨passed, hpassed⟩ := hcollapse.exists_fold hdraws hrange hlinked.collapse.inRange hcode
    refine ⟨passed, hpassed, ?_, hdraws.fold hrange hpassed⟩
    refine hcollapse.fold hdraws hrange (fun line => ?_) hlinked.collapse.inRange hpassed hcode
    rw [Code.isPlaceholder_congr hkinds, hnone]
  · next hoptimize =>
    obtain rfl := Except.ok.inj hcode
    rw [if_neg hoptimize]
    exact ⟨_, rfl, hcollapse, hdraws⟩

/-- On a canvas of the two colors nothing can be seen of default writes. -/
theorem standsInFor_defaulted {p q : Program} (h : q.code.Defaulted p.code)
    (hdraws : q.code.DrawsIn Dialect.binary.inks) (hp : p.code.Sound) (hq : q.code.Sound) :
    q.StandsInFor (Canvas.DrawnIn Dialect.binary.inks) p where
  size := h.size.symm
  entry := by rw [entry_eq_landing hp, entry_eq_landing hq, Code.landing_congr h.kinds]
  direction line slot := (h.steers line slot).1.symm
  target line slot := (h.steers line slot).2.symm
  paint canvas offset line hcanvas := by
    rcases Nat.lt_or_ge line q.code.size with hlt | hge
    · rw [h.action line _ hlt, Slot.standIn_of (hcanvas.pixelAt offset), Action.carry]
      cases (q.code.action line (Slot.of (canvas.pixelAt offset))).write with
      | none => exact (canvas.put_pixelAt offset).symm
      | some color => rfl
    · rw [Code.action_of_ge hge, Code.action_of_ge (h.size ▸ hge)]
  kept canvas offset line hcanvas := by
    cases hwrite : (p.code.action line (Slot.of (canvas.pixelAt offset))).write with
    | none => exact hcanvas
    | some color => exact hcanvas.put (h.drawsIn hdraws _ _ _ hwrite) offset

/-- A source that is linked without default writes writes in the inks of its
dialect. -/
theorem drawsIn_of_readsAll {dialect : Dialect} {source : String} {is : List (Instruction Goto)}
    {s : Reader} {plain : Code} (h : Draft.ReadsAll dialect source is s)
    (hplain : Linker.link ⟨s.labels, false⟩ is = .ok plain) : plain.DrawsIn dialect.inks := by
  intro line slot color hwrite
  rcases Nat.lt_or_ge line plain.size with hlt | hge
  · -- linking without default writes is how the other dialect links
    obtain ⟨i, hi, -, hlinked⟩ :=
      (Draft.link_lines (d := ⟨.palette, is, s.labels⟩) hplain).2 line hlt
    rw [(Linker.action_spec (hlinked slot)).2.2 rfl] at hwrite
    exact h.mem_inks (List.mem_of_getElem? hi) slot hwrite
  · rw [Code.action_of_ge hge] at hwrite
    simp [Action.goOn] at hwrite

/-- A binary program stands in for itself without default writes. -/
theorem compile_binary_defaulted {source : String} {p : Program}
    (hbinary : options.dialect = .binary) (h : compile options source = .ok p) :
    ∃ d plain code, Draft.ofSource .binary source = .ok d ∧
      Linker.link ⟨d.labels, false⟩ d.instructions = .ok plain ∧
      passes options plain = .ok code ∧
      (⟨code, d.labels, d.count, .binary⟩ : Program).StandsInFor
        (Canvas.DrawnIn Dialect.binary.inks) p := by
  have hnone := (compile_wellFormed h).binary hbinary
  obtain ⟨d, linked, code, hd, hlinked, hcode, rfl⟩ := compile_eq_ok_iff.mp h
  have hlinkedCode := linked_of_ofSource hd hlinked
  obtain ⟨hkinds, hsound⟩ := passes_spec hlinkedCode hcode
  rw [hbinary] at hd
  obtain ⟨is, s, hreads, -, rfl⟩ := Draft.ofSource_eq_ok_iff.mp hd
  have hdefaulted : (Linker.link ⟨s.labels, false⟩ is).map (Array.map Instruction.defaulted) =
      .ok linked := by
    rw [← Linker.link_defaulted]
    exact hlinked
  cases hplain : Linker.link ⟨s.labels, false⟩ is with
  | error fault => simp [hplain, Except.map] at hdefaulted
  | ok plain =>
    obtain rfl : plain.map Instruction.defaulted = linked := by
      simpa [hplain, Except.map] using hdefaulted
    have hmap := plain.defaulted_map
    have hnonePlain : ∀ line, plain.isPlaceholder line = false := fun line => by
      rw [← Code.isPlaceholder_congr (hkinds.trans hmap.kinds)]
      exact hnone line
    obtain ⟨passed, hpassed, hsame, hdraws⟩ := passes_defaulted hmap hnonePlain
      (drawsIn_of_readsAll hreads hplain) hlinkedCode hcode
    have hsoundPassed := (passes_spec (hmap.linked hnonePlain hlinkedCode) hpassed).2
    exact ⟨_, plain, passed, hd, hplain, hpassed,
      standsInFor_defaulted hsame hdraws hsound hsoundPassed⟩

/-- The binary dialect is a world of two colors. Whatever is done with a program,
a canvas of white and black pixels stays one. And nothing can be seen of default
writes: the source can be linked without them and goes through the same passes,
and the program that comes out is always on the same line, with the same cursor,
canvas, exit status and count of instructions. -/
theorem compile_binary_twoColored {source : String} {p : Program}
    (hbinary : options.dialect = .binary) (h : compile options source = .ok p) :
    ∃ d plain code, Draft.ofSource .binary source = .ok d ∧
      Linker.link ⟨d.labels, false⟩ d.instructions = .ok plain ∧
      passes options plain = .ok code ∧
      ∀ canvas operations, canvas.DrawnIn [.white, .black] →
        (∀ other, .reset other ∈ operations → other.DrawnIn [.white, .black]) →
        let m := (Machine.start p canvas).perform operations
        let m' := (Machine.start ⟨code, d.labels, d.count, .binary⟩ canvas).perform operations
        m.canvas.DrawnIn [.white, .black] ∧ m'.line = m.line ∧ m'.cursor = m.cursor ∧
          m'.canvas = m.canvas ∧ m'.exitStatus? = m.exitStatus? ∧ m'.executed = m.executed := by
  obtain ⟨d, plain, code, hd, hplain, hcode, hstands⟩ := compile_binary_defaulted hbinary h
  refine ⟨d, plain, code, hd, hplain, hcode, fun canvas operations hcanvas hresets => ?_⟩
  have hstart : (Machine.start p canvas).canvas.DrawnIn Dialect.binary.inks := by
    rw [Machine.start, Machine.canvas_reset]
    exact hcanvas
  obtain ⟨hperform, hdrawn⟩ :=
    Machine.perform_load hstands hresets (Machine.program_start p canvas) hstart
  dsimp only
  rw [Machine.start_load hstands, hperform]
  exact ⟨hdrawn, by simp⟩

/-- A chain from a white pixel, where nothing is written and the folded action
writes white, first on a canvas with a black pixel and then on another one. -/
theorem compile_binary_twoColored_chain :
    ∃ p d plain code canvas other,
      compile ⟨.binary, true, none⟩ "a: if 1 write 0 move E else goto b\nb: move E goto a" = .ok p ∧
      Draft.ofSource .binary "a: if 1 write 0 move E else goto b\nb: move E goto a" = .ok d ∧
      Linker.link ⟨d.labels, false⟩ d.instructions = .ok plain ∧
      passes ⟨.binary, true, none⟩ plain = .ok code ∧
      p.code.action 0 .white = ⟨some .white, .right, .jump 0⟩ ∧
      Canvas.ofPixels 2 1 #[.white, .black] = .ok canvas ∧
      Canvas.ofPixels 3 1 #[.black, .white, .black] = .ok other ∧
      ∀ budget,
        let operations : List Machine.Operation := [.step 1 [], .reset other, .step budget []]
        ((Machine.start ⟨code, d.labels, d.count, .binary⟩ canvas).perform operations).canvas =
          ((Machine.start p canvas).perform operations).canvas := by
  obtain ⟨p, canvas, other, hp, haction, hcanvas, hother⟩ : ∃ p canvas other,
      compile ⟨.binary, true, none⟩ "a: if 1 write 0 move E else goto b\nb: move E goto a" = .ok p ∧
      p.code.action 0 .white = ⟨some .white, .right, .jump 0⟩ ∧
      Canvas.ofPixels 2 1 #[.white, .black] = .ok canvas ∧
      Canvas.ofPixels 3 1 #[.black, .white, .black] = .ok other := ⟨_, _, _, rfl, rfl, rfl, rfl⟩
  have hdrawn : canvas.DrawnIn [.white, .black] := by
    obtain rfl := Except.ok.inj hcanvas
    simp [Canvas.DrawnIn]
  have hdrawn' : other.DrawnIn [.white, .black] := by
    obtain rfl := Except.ok.inj hother
    simp [Canvas.DrawnIn]
  obtain ⟨d, plain, code, hd, hplain, hcode, hruns⟩ := compile_binary_twoColored rfl hp
  refine ⟨p, d, plain, code, canvas, other, hp, hd, hplain, hcode, haction, hcanvas, hother,
    fun budget => ?_⟩
  exact (hruns canvas _ hdrawn (by simp [hdrawn'])).2.2.2.1

end Program

end PixelTurtle
