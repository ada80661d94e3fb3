/-
PixelTurtle.Proofs.Renumbering — a code with a placeholder inserted is the code
before with its lines renumbered.

Inserting a line at `k` gives every line from `k` on the next number
(`renumber k`). `Code.Inserted` says that one code is another with a placeholder
at `k` and every target renumbered. A linked code is not quite that: what fell
through to line `k` now falls onto the placeholder, and what was the end may
be the placeholder (`Target.Shifts`). Collapsing takes such targets on to where
they should be, and folding then goes through the same chains:

* `Code.collapse_inserted` — collapsing makes the two codes match.
* `Code.Inserted.fold` — folding accepts the one if it accepts the other, and
  the codes still match.
* `Code.Inserted.toList_eq` — what matching means for the lines.
* `Machine.config_after_inserted` — the two codes run in step.
-/
import PixelTurtle.Proofs.Covering
import PixelTurtle.Proofs.LineByLine

namespace PixelTurtle

variable {k : Nat}

/-! ## Numbers of lines -/

/-- The number of a line once another one is inserted at `k`. -/
def renumber (k line : Nat) : Nat :=
  if line < k then line else line + 1

theorem renumber_of_lt {line : Nat} (h : line < k) : renumber k line = line := by
  simp [renumber, h]

theorem renumber_of_ge {line : Nat} (h : k ≤ line) : renumber k line = line + 1 := by
  simp [renumber, Nat.not_lt.mpr h]

theorem renumber_injective (k : Nat) : Function.Injective (renumber k) := by
  intro a b h
  unfold renumber at h
  split at h <;> split at h <;> omega

/-- Every line but the inserted one was there before. -/
theorem exists_renumber {line : Nat} (h : line ≠ k) : ∃ before, renumber k before = line := by
  rcases Nat.lt_or_gt_of_ne h with hlt | hgt
  · exact ⟨line, renumber_of_lt hlt⟩
  · exact ⟨line - 1, by rw [renumber_of_ge (by omega)]; omega⟩

/-- The line after a line is the line after it before, or the inserted one. -/
theorem renumber_succ (k line : Nat) :
    renumber k line + 1 = renumber k (line + 1) ∨ (line + 1 = k ∧ renumber k line + 1 = k) := by
  unfold renumber
  split <;> split <;> omega

theorem renumber_succ_succ (k line : Nat) :
    renumber (k + 1) (line + 1) = renumber k line + 1 := by
  unfold renumber
  split <;> split <;> omega

theorem renumber_lt_succ_iff {line size : Nat} (h : k ≤ size) :
    renumber k line < size + 1 ↔ line < size := by
  unfold renumber
  split <;> omega

/-- What stood in a list stands there under its new number. -/
theorem getElem?_insertIdx_renumber {α : Type} (xs : List α) (k line : Nat) (x : α) :
    (xs.insertIdx k x)[renumber k line]? = xs[line]? := by
  rcases Nat.lt_or_ge line k with hlt | hge
  · rw [renumber_of_lt hlt, List.getElem?_insertIdx_of_lt hlt]
  · rw [renumber_of_ge hge, List.getElem?_insertIdx_of_gt (by omega), Nat.add_sub_cancel]

/-- Lists with one element inserted agree when that element and the others
do. -/
theorem ext_getElem?_renumber {α : Type} {xs ys : List α} (k : Nat) (hk : xs[k]? = ys[k]?)
    (h : ∀ line, xs[renumber k line]? = ys[renumber k line]?) : xs = ys := by
  refine List.ext_getElem? fun line => ?_
  by_cases heq : line = k
  · rw [heq, hk]
  · obtain ⟨before, rfl⟩ := exists_renumber heq
    exact h before

/-! ## What stands in a line -/

/-- A target with its line renumbered. -/
def Target.renumber (k : Nat) : Target → Target
  | .jump line => .jump (PixelTurtle.renumber k line)
  | .exit status => .exit status

/-- An action with its target renumbered. -/
def Action.renumber (k : Nat) (a : Action Target) : Action Target :=
  { a with target := a.target.renumber k }

/-- An instruction with its targets renumbered. -/
def Instruction.renumber (k : Nat) (i : Instruction Target) : Instruction Target :=
  ⟨i.white.renumber k, i.color.renumber k, i.kind⟩

/-- A line that only goes on. -/
def Instruction.blank {τ : Type} (target : τ) : Instruction τ :=
  ⟨.goOn target, .goOn target, .placeholder⟩

/-- A branch with its line renumbered. -/
def Branch.renumber (k : Nat) (b : Branch) : Branch :=
  ⟨b.color, PixelTurtle.renumber k b.line⟩

theorem Action.renumber_carry (last : Action Target) (write : Option Color) :
    (last.carry write).renumber k = (last.renumber k).carry write := rfl

theorem Action.stillJump?_renumber (a : Action Target) :
    (a.renumber k).stillJump? = a.stillJump?.map (PixelTurtle.renumber k) := by
  obtain ⟨write, direction, target⟩ := a
  cases direction <;> cases target <;> rfl

namespace Code

/-! ## The inserted line -/

/-- The one code has the lines of the other and one placeholder more. -/
structure Widened (k : Nat) (code code' : Code) : Prop where
  le : k ≤ code.size
  kinds : code'.kinds = code.kinds.insertIdx k .placeholder

/-- The one code is the other with a placeholder inserted and every target
renumbered. -/
structure Inserted (k : Nat) (code code' : Code) : Prop extends Widened k code code' where
  action : ∀ line slot, code'.action (renumber k line) slot = (code.action line slot).renumber k

variable {code code' : Code}

namespace Widened

theorem size (h : Widened k code code') : code'.size = code.size + 1 := by
  rw [← length_kinds, h.kinds, List.length_insertIdx_of_le_length (by simpa using h.le),
    length_kinds]

theorem kept (h : Widened k code code') (line : Nat) :
    code'.isPlaceholder (renumber k line) = code.isPlaceholder line := by
  rw [isPlaceholder_eq_kinds, h.kinds, getElem?_insertIdx_renumber, ← isPlaceholder_eq_kinds]

theorem placeholder (h : Widened k code code') : code'.isPlaceholder k = true := by
  rw [isPlaceholder_eq_kinds, h.kinds, List.getElem?_insertIdx_self, length_kinds, if_pos h.le]
  rfl

/-- A pass that keeps the kinds of both codes keeps this. -/
theorem congr (h : Widened k code code') {passed passed' : Code}
    (hkinds : passed.kinds = code.kinds) (hkinds' : passed'.kinds = code'.kinds) : Widened k passed passed' :=
  ⟨size_congr hkinds ▸ h.le, by rw [hkinds, hkinds', h.kinds]⟩

theorem canRun_renumber (h : Widened k code code') (line : Nat) :
    code'.CanRun (renumber k line) ↔ code.CanRun line := by
  rw [CanRun, CanRun, h.kept, h.size, renumber_lt_succ_iff h.le]

/-- A line that can run was there before. -/
theorem exists_of_canRun (h : Widened k code code') {line : Nat} (hrun : code'.CanRun line) :
    ∃ before, renumber k before = line ∧ code.CanRun before := by
  have hne : line ≠ k := by
    rintro rfl
    exact Bool.false_ne_true (hrun.2.symm.trans h.placeholder)
  obtain ⟨before, rfl⟩ := exists_renumber hne
  exact ⟨before, rfl, (h.canRun_renumber before).mp hrun⟩

/-- Lines land where they landed before. The induction is on the lines that are
left after this one. -/
theorem landing_renumber (h : Widened k code code') (line : Nat) :
    code'.landing (renumber k line) = (code.landing line).renumber k := by
  have hle := h.le
  induction hleft : code.size - line generalizing line with
  | zero =>
    have hge : code'.size ≤ renumber k line := by
      rw [h.size, renumber_of_ge (by omega)]
      omega
    rw [landing_of_ge hge, landing_of_ge (by omega)]
    rfl
  | succ left ih =>
    have hlt : renumber k line < code'.size := by
      rw [h.size, renumber_lt_succ_iff hle]
      omega
    rw [landing_of_lt hlt, landing_of_lt (show line < code.size by omega), h.kept]
    cases code.isPlaceholder line with
    | false => rfl
    | true =>
      simp only [if_true]
      rcases renumber_succ k line with hnext | ⟨hk, hnext⟩
      · rw [hnext, ih (line + 1) (by omega)]
      · -- the next line is the inserted one, and is passed over
        have hinserted : k < code'.size := by rw [h.size]; omega
        rw [hnext, landing_of_lt hinserted, h.placeholder, if_pos rfl,
          ← renumber_of_ge (Nat.le_refl k), hk, ih k (by omega)]

theorem landing_inserted (h : Widened k code code') :
    code'.landing k = (code.landing k).renumber k := by
  have hlt : k < code'.size := by
    rw [h.size]
    exact Nat.lt_succ_of_le h.le
  rw [landing_of_lt hlt, h.placeholder, if_pos rfl, ← renumber_of_ge (Nat.le_refl k),
    h.landing_renumber]

theorem landing_zero (h : Widened k code code') :
    code'.landing 0 = (code.landing 0).renumber k := by
  rcases Nat.eq_zero_or_pos k with rfl | hpos
  · exact h.landing_inserted
  · rw [← h.landing_renumber, renumber_of_lt hpos]

theorem landing_succ (h : Widened k code code') (line : Nat) :
    code'.landing (renumber k line + 1) = (code.landing (line + 1)).renumber k := by
  rcases renumber_succ k line with hnext | ⟨hk, hnext⟩
  · rw [hnext, h.landing_renumber]
  · rw [hnext, hk, h.landing_inserted]

end Widened

/-! ## Linked codes -/

end Code

/-- A target that was renumbered, or that went on to line `k` of as many lines
and now goes on to the line inserted there. -/
def Target.Shifts (k lines : Nat) (t t' : Target) : Prop :=
  t' = t.renumber k ∨ (t' = .jump k ∧ t = if k < lines then .jump k else .exit 0)

namespace Code

variable {code code' : Code}

/-- Passing over placeholders takes both targets to the same line. -/
theorem Widened.settle (h : Widened k code code') {t t' : Target}
    (ht : t.Shifts k code.size t') : code'.settle t' = (code.settle t).renumber k := by
  rcases ht with rfl | ⟨rfl, rfl⟩
  · cases t with
    | jump line => exact h.landing_renumber line
    | exit status => rfl
  · rw [Code.settle, h.landing_inserted]
    split
    · rfl
    · next hend =>
      rw [landing_of_ge (Nat.le_of_not_lt hend)]
      rfl

/-- Collapsing takes every target to where it belongs. -/
theorem collapse_inserted (h : Widened k code code') (hlinked : code.Linked)
    (hlinked' : code'.Linked)
    (hlike : ∀ line slot, (code.action line slot).Like (Target.Shifts k code.size)
      (code'.action (renumber k line) slot)) :
    Inserted k code.collapse code'.collapse where
  toWidened := h.congr (kinds_collapse hlinked.fallsThrough.oneTarget)
    (kinds_collapse hlinked'.fallsThrough.oneTarget)
  action line slot := by
    obtain ⟨hwrite, hdirection, htarget⟩ := hlike line slot
    rw [collapse_action hlinked.fallsThrough hlinked.inRange,
      collapse_action hlinked'.fallsThrough hlinked'.inRange, h.settle htarget]
    dsimp only
    rw [hwrite, hdirection]
    rfl

/-! ## Folding -/

namespace Inserted

variable {folded folded' : Code} {strictness : Strictness} {b : Branch} {last : Action Target}

theorem action_branch (h : Inserted k code code') (b : Branch) :
    (b.renumber k).action code' = (b.action code).renumber k :=
  h.action b.line (Slot.of b.color)

/-- Chains go through the same lines. -/
theorem next? (h : Inserted k code code') (b : Branch) :
    (b.renumber k).next? code' = (b.next? code).map (Branch.renumber k) := by
  rw [Branch.next?, Branch.next?, h.action_branch, Action.stillJump?_renumber]
  cases (b.action code).stillJump? <;> rfl

theorem endsOn (h : Inserted k code code') (hends : code.EndsOn b last) :
    code'.EndsOn (b.renumber k) (last.renumber k) := by
  induction hends with
  | @here b hnone =>
    rw [← h.action_branch]
    exact .here (by rw [h.next?, hnone, Option.map_none])
  | @on b c last hnext _ ih =>
    rw [Action.renumber_carry]
    have hwrite : (b.action code).write = ((b.renumber k).action code').write := by
      rw [h.action_branch]
      rfl
    rw [hwrite]
    exact .on (by rw [h.next?, hnext, Option.map_some]) ih

/-- A chain from a line that was there before ends only if it did. -/
theorem exists_endsOn (h : Inserted k code code') {last' : Action Target}
    (hends : code'.EndsOn (b.renumber k) last') : ∃ last, code.EndsOn b last := by
  generalize hb : b.renumber k = b' at hends
  induction hends generalizing b with
  | here hnone =>
    subst hb
    rw [h.next?, Option.map_eq_none_iff] at hnone
    exact ⟨_, .here hnone⟩
  | on hnext _ ih =>
    subst hb
    rw [h.next?, Option.map_eq_some_iff] at hnext
    obtain ⟨c, hc, hrenumber⟩ := hnext
    obtain ⟨last, hlast⟩ := ih hrenumber
    exact ⟨_, .on hc hlast⟩

/-- Folding that accepts the code before accepts it with the placeholder: a
chain that comes back would have come back before. -/
theorem exists_fold (h : Inserted k code code') (hsound : code.Sound) (hsound' : code'.Sound)
    (hfold : code.fold strictness = .ok folded) :
    ∃ folded', code'.fold strictness = .ok folded' := by
  refine exists_fold_of_ends hsound'.inRange ?_
  rintro rfl line slot hrun'
  obtain ⟨before, rfl, hrun⟩ := h.exists_of_canRun hrun'
  rcases fold_settled hsound.inRange hfold (b := .start before slot) hrun with
    hends | ⟨-, hpermissive⟩
  · exact ⟨_, h.endsOn hends⟩
  · simp at hpermissive

/-- On a line that can run, folding comes to the same action. -/
theorem fold_branch (h : Inserted k code code') (hsound : code.Sound) (hsound' : code'.Sound)
    (hfold : code.fold strictness = .ok folded) (hfold' : code'.fold strictness = .ok folded')
    (hrun : code.CanRun b.line) :
    (b.renumber k).action folded' = (b.action folded).renumber k := by
  have hrun' : code'.CanRun (b.renumber k).line := (h.canRun_renumber b.line).mpr hrun
  refine fold_transfer hsound.inRange hsound'.inRange hfold hfold' hrun hrun' (h.action_branch b)
    (fun last => h.endsOn) ?_
  intro hspins last' hends'
  obtain ⟨last, hlast⟩ := h.exists_endsOn hends'
  exact hspins last hlast

/-- Folding keeps the codes matching. -/
theorem fold (h : Inserted k code code') (hsound : code.Sound) (hsound' : code'.Sound)
    (hfold : code.fold strictness = .ok folded) (hfold' : code'.fold strictness = .ok folded') :
    Inserted k folded folded' := by
  have hkinds := kinds_fold hsound.inRange hfold
  have hwidened := h.congr hkinds (kinds_fold hsound'.inRange hfold')
  refine ⟨hwidened, fun line slot => ?_⟩
  rcases Nat.lt_or_ge line code.size with hlt | hge
  · cases hp : code.isPlaceholder line with
    | false =>
      have hbranch := h.fold_branch hsound hsound' hfold hfold' (b := .start line slot) ⟨hlt, hp⟩
      rw [Branch.action_start] at hbranch
      rw [← hbranch]
      exact (Branch.action_start folded' _ slot).symm
    | true =>
      rw [isPlaceholder_congr hkinds.symm] at hp
      rw [(hsound.fold hfold).placeholders line slot hp,
        (hsound'.fold hfold').placeholders _ slot (hwidened.kept line ▸ hp), hwidened.landing_succ]
      rfl
  · have hpast : folded.size ≤ line := size_congr hkinds ▸ hge
    have hpast' : folded'.size ≤ renumber k line := by
      rw [hwidened.size, renumber_of_ge (Nat.le_trans h.le hge)]
      omega
    rw [action_of_ge hpast, action_of_ge hpast']
    rfl

end Inserted

/-! ## The lines -/

/-- A line is its kind and its two actions. -/
theorem getElem?_eq (code : Code) (line : Nat) :
    code[line]? = code.kinds[line]?.map fun kind =>
      ⟨code.action line .white, code.action line .color, kind⟩ := by
  simp only [kinds, List.getElem?_map, Array.getElem?_toList, action]
  cases code[line]? <;> rfl

/-- The lines with a placeholder inserted are the lines before, renumbered, and
the placeholder, which goes on to where line `k` landed. -/
theorem Inserted.toList_eq (h : Inserted k code code') (hsound' : code'.Sound) :
    code'.toList = (code.toList.map (Instruction.renumber k)).insertIdx k
      (.blank ((code.landing k).renumber k)) := by
  refine ext_getElem?_renumber k ?_ fun line => ?_
  · have hlanding : code'.landing (k + 1) = (code.landing k).renumber k := by
      rw [← renumber_of_ge (Nat.le_refl k), h.landing_renumber]
    rw [Array.getElem?_toList, getElem?_eq, h.kinds, List.getElem?_insertIdx_self,
      List.getElem?_insertIdx_self, length_kinds, List.length_map, Array.length_toList, if_pos h.le,
      if_pos h.le, hsound'.placeholders k .white h.placeholder,
      hsound'.placeholders k .color h.placeholder, hlanding]
    rfl
  · rw [getElem?_insertIdx_renumber, Array.getElem?_toList, List.getElem?_map,
      Array.getElem?_toList, getElem?_eq code', getElem?_eq code, h.kinds,
      getElem?_insertIdx_renumber, h.action, h.action]
    cases code.kinds[line]? <;> rfl

end Code

/-! ## Runs -/

namespace Config

/-- A configuration with its line renumbered. -/
def renumber (k : Nat) (c : Config) : Config :=
  { c with place := c.place.renumber k }

theorem isExited_renumber (c : Config) : (c.renumber k).isExited = c.isExited := by
  obtain ⟨canvas, cursor, place⟩ := c
  cases place <;> rfl

theorem perform_renumber (c : Config) (a : Action Target) :
    (c.renumber k).perform (a.renumber k) = (c.perform a).renumber k := by
  simp only [perform, renumber, Action.renumber]
  cases c.cursor.move? a.direction c.canvas.width c.canvas.height <;> rfl

variable {code code' : Code}

/-- One instruction of the one code is one of the other. -/
theorem next_renumber (h : code.Inserted k code') (c : Config) :
    (c.next code).renumber k = (c.renumber k).next code' := by
  cases hplace : c.place with
  | exit status =>
    have hexited : c.isExited = true := by simp [isExited, hplace, Target.isExit]
    rw [next_of_isExited hexited, next_of_isExited (by rw [isExited_renumber, hexited])]
  | jump line =>
    have hplace' : (c.renumber k).place = .jump (PixelTurtle.renumber k line) := by
      rw [renumber, hplace]
      rfl
    rw [next_of_jump hplace, next_of_jump hplace', ← perform_renumber, ← h.action_branch]
    rfl

/-- A run of the one code is a run of the other. -/
theorem iterate_renumber (h : code.Inserted k code') (c : Config) (n : Nat) :
    ((next code)^[n] c).renumber k = (next code')^[n] (c.renumber k) :=
  Function.Semiconj.iterate_right (next_renumber h) n c

theorem count_renumber (h : code.Inserted k code') (c : Config) (n : Nat) :
    count code' (fun c => !c.isExited) (c.renumber k) n =
      count code (fun c => !c.isExited) c n := by
  simp only [count, ← iterate_renumber h, isExited_renumber]

end Config

/-- Nothing is counted for an inserted placeholder. -/
theorem Coverage.tally_insertIdx {a b : Coverage} (kinds : List Kind) {k line line' : Nat}
    (h : ∀ i slot, b.isCovered (line' + renumber k i) slot = a.isCovered (line + i) slot) :
    b.tally line' (kinds.insertIdx k .placeholder) = a.tally line kinds := by
  induction k generalizing kinds line line' with
  | zero =>
    rw [List.insertIdx_zero, tally]
    refine tally_congr fun i slot => ?_
    rw [← h i slot, renumber_of_ge (Nat.zero_le i), Nat.add_comm i, Nat.add_assoc]
  | succ k ih =>
    cases kinds with
    | nil => rfl
    | cons kind rest =>
      have hrest : b.tally (line' + 1) (rest.insertIdx k .placeholder) =
          a.tally (line + 1) rest := by
        refine ih rest fun i slot => ?_
        have hnext := h (i + 1) slot
        rw [renumber_succ_succ] at hnext
        rw [Nat.add_right_comm line', Nat.add_right_comm line]
        exact hnext
      have hfirst := h 0
      simp only [renumber_of_lt (Nat.succ_pos k), Nat.add_zero] at hfirst
      rw [List.insertIdx_succ_cons]
      exact tally_cons_congr hfirst hrest

namespace Machine

variable {p p' : Program} (hp : p.code.Sound) (hp' : p'.code.Sound)
  (h : p.code.Inserted k p'.code) (canvas : Canvas) (n : Nat)
include hp hp' h

/-- After any number of instructions, the two programs are in the same
configuration, but for the number of the line. -/
theorem config_after_inserted :
    ((start p' canvas).after n).config = ((start p canvas).after n).config.renumber k := by
  have hentry : p'.entry = p.entry.renumber k := by
    rw [Program.entry_eq_landing hp, Program.entry_eq_landing hp', h.landing_zero]
  rw [config_after, config_after, config_start, config_start, program_start, program_start,
    Config.iterate_renumber h, hentry]
  rfl

theorem exitStatus?_after_inserted :
    ((start p' canvas).after n).exitStatus? = ((start p canvas).after n).exitStatus? := by
  have hplace := congrArg Config.place (config_after_inserted hp hp' h canvas n)
  unfold config Config.renumber at hplace
  cases hm : ((start p canvas).after n).exitStatus? <;>
    cases hm' : ((start p' canvas).after n).exitStatus? <;> simp_all [Target.renumber]

theorem executed_after_inserted :
    ((start p' canvas).after n).executed = ((start p canvas).after n).executed := by
  have hconfig := config_after_inserted hp hp' h canvas 0
  rw [after_zero, after_zero, config_wake, config_wake] at hconfig
  rw [executed_after, executed_after, executed_start, executed_start, program_start, program_start,
    hconfig, Config.count_renumber h]

/-- The same is about to be executed, on the renumbered line. -/
theorem isAt_after_inserted (line : Nat) (slot : Slot)
    (halive : ((start p canvas).after n).isExited = false) :
    ((start p' canvas).after n).IsAt (renumber k line) slot ↔
      ((start p canvas).after n).IsAt line slot := by
  have hconfig := config_after_inserted hp hp' h canvas n
  have halive' : ((start p' canvas).after n).isExited = false := by
    rw [← isExited_config, hconfig, Config.isExited_renumber, isExited_config, halive]
  have hplace := congrArg Config.place hconfig
  rw [Config.renumber, place_of_isExited_eq_false halive, place_of_isExited_eq_false halive']
    at hplace
  have hpixel : ((start p' canvas).after n).pixel = ((start p canvas).after n).pixel :=
    congrArg Config.pixel hconfig
  rw [IsAt, IsAt, Target.jump.inj hplace, (renumber_injective k).eq_iff, hpixel]

theorem isCovered_after_inserted (hpos : 0 < p.size) (line : Nat) (slot : Slot) :
    ((start p' canvas).after n).coverage.isCovered (renumber k line) slot =
      ((start p canvas).after n).coverage.isCovered line slot := by
  have hpos' : 0 < p'.size := by
    rw [Program.size, h.size]
    exact Nat.succ_pos _
  have hsound : (start p canvas).program.code.Sound := by rwa [program_start]
  have hsound' : (start p' canvas).program.code.Sound := by rwa [program_start]
  rw [Bool.eq_iff_iff, isCovered_after hsound (inBounds_start hp hpos canvas),
    isCovered_after hsound' (inBounds_start hp' hpos' canvas), coverage_start, coverage_start,
    Coverage.isCovered_none, Coverage.isCovered_none]
  refine or_congr Iff.rfl (exists_congr fun i => and_congr_right fun _ => ?_)
  have hexited : ((start p' canvas).after i).isExited = ((start p canvas).after i).isExited := by
    rw [isExited, isExited, exitStatus?_after_inserted hp hp' h]
  rw [hexited]
  exact and_congr_right fun halive => isAt_after_inserted hp hp' h canvas i line slot halive

theorem percentage_after_inserted (hpos : 0 < p.size) :
    ((start p' canvas).after n).percentage = ((start p canvas).after n).percentage := by
  have htally : ((start p' canvas).after n).coverage.tally 0 p'.code.kinds =
      ((start p canvas).after n).coverage.tally 0 p.code.kinds := by
    rw [h.kinds]
    refine Coverage.tally_insertIdx _ fun line slot => ?_
    rw [Nat.zero_add, Nat.zero_add, isCovered_after_inserted hp hp' h canvas n hpos]
  rw [percentage, percentage, program_after, program_after, program_start, program_start,
    Coverage.percentage, Coverage.percentage, htally]

end Machine

end PixelTurtle
