/-
PixelTurtle.Proofs.Placeholders — collapsing sends every jump to the end of
the placeholders it leads onto.

`Code.skip?` is one step through a placeholder line. A jump ends on `e` when
`e ∈ eval code.skip? target`: a walk of such steps reaches `e` and goes no
further.

* `Collapsing.redirect_spec` — one redirection, with the lines whose own
  redirection is under way as a stack. A branch found visited is either on
  that stack, and then its placeholders go round for ever, or its line is
  done.
* `Code.collapse_reaches`, `Code.collapse_eval` — what the whole pass makes
  of each jump, for any code whose placeholders have one target.
* `Code.collapse_action` — the same for a code whose placeholders fall
  through to the next line, as every linked program's do.
-/
import Mathlib.Computability.StateTransition
import Mathlib.Data.List.Perm.Subperm
import PixelTurtle.Code.Collapse
import PixelTurtle.Proofs.Lines

namespace PixelTurtle

open StateTransition

/-! ## Walks that end -/

/-- A walk that ends never comes back to where it was. -/
theorem not_reaches₁_self {σ : Type} {f : σ → Option σ} {a e : σ} (h : e ∈ eval f a) :
    ¬ Reaches₁ f a a := by
  refine evalInduction h fun a _ ih hloop => ?_
  obtain ⟨a', hstep, hback⟩ := Relation.TransGen.head'_iff.mp hloop
  exact ih a' hstep (Relation.TransGen.tail'_iff.mpr ⟨a, hback, hstep⟩)

/-- Where a walk ends does not depend on where along it one looks. -/
theorem mem_eval_of_reaches {σ : Type} {f : σ → Option σ} {a b e : σ} (hab : Reaches f a b)
    (h : e ∈ eval f a) : e ∈ eval f b :=
  reaches_eval hab ▸ h

/-- There are eight branches to a line. -/
theorem Branch.length_le {branches : List Branch} (hnodup : branches.Nodup) {size : Nat}
    (hline : ∀ b ∈ branches, b.line < size) : branches.length ≤ Color.all.length * size := by
  have hsub : branches ⊆ Color.all.flatMap (fun c => (List.range size).map (Branch.mk c)) := by
    intro b hb
    have hcolor : b.color ∈ Color.all := by cases b.color <;> decide
    exact List.mem_flatMap.mpr
      ⟨b.color, hcolor, List.mem_map.mpr ⟨b.line, List.mem_range.mpr (hline b hb), rfl⟩⟩
  have hle := (hnodup.subperm hsub).length_le
  simp only [List.length_flatMap, List.length_map, List.length_range, List.map_const',
    List.sum_replicate_nat] at hle
  exact hle

namespace Code

/-- One step through a placeholder, to where its white action goes on. -/
def skip? (code : Code) : Target → Option Target
  | .exit _ => none
  | .jump line =>
      if code.isPlaceholder line then some (code.action line .white).target else none

@[simp] theorem skip?_exit (code : Code) (status : Status) : code.skip? (.exit status) = none :=
  rfl

theorem skip?_placeholder {code : Code} {line : Nat} (h : code.isPlaceholder line = true) :
    code.skip? (.jump line) = some (code.action line .white).target := by
  simp [skip?, h]

theorem skip?_of_not {code : Code} {line : Nat} (h : code.isPlaceholder line = false) :
    code.skip? (.jump line) = none := by
  simp [skip?, h]

/-- Both actions of a placeholder go on at the same place. -/
def OneTarget (code : Code) : Prop :=
  ∀ line slot, code.isPlaceholder line = true →
    (code.action line slot).target = (code.action line .white).target

end Code

/-! ## One redirection -/

namespace Collapsing

/-- The pass has come from `code` to here by moving targets along their
walks. -/
structure Of (code : Code) (s : Collapsing) : Prop where
  kinds : s.code.kinds = code.kinds
  write : ∀ line slot, (s.code.action line slot).write = (code.action line slot).write
  direction : ∀ line slot, (s.code.action line slot).direction = (code.action line slot).direction
  target : ∀ line slot,
    Reaches code.skip? (code.action line slot).target (s.code.action line slot).target
  lines : ∀ b ∈ s.visited, b.line < code.size
  nodup : s.visited.Nodup

/-- The action already goes on where its walk ends, if it ends. -/
def DoneAt (code : Code) (s : Collapsing) (line : Nat) (slot : Slot) : Prop :=
  ∀ e ∈ eval code.skip? (code.action line slot).target, (s.code.action line slot).target = e

/-- Every visited line is done, except those on the stack. -/
def Settled (code : Code) (s : Collapsing) (stack : List Nat) : Prop :=
  ∀ b ∈ s.visited, b.line ∈ stack ∨ ∀ slot, DoneAt code s b.line slot

/-- What is done stays done. -/
def Keeps (code : Code) (s s' : Collapsing) : Prop :=
  ∀ line slot, DoneAt code s line slot → DoneAt code s' line slot

variable {code : Code} {s : Collapsing}

theorem Of.size (h : Of code s) : s.code.size = code.size :=
  Code.size_congr h.kinds

theorem Of.start (code : Code) : Of code ⟨code, []⟩ where
  kinds := rfl
  write _ _ := rfl
  direction _ _ := rfl
  target _ _ := .refl
  lines := by simp
  nodup := .nil

/-- An action leads onto a placeholder exactly when its walk has a step to
go. -/
theorem placeholder?_cases (h : Of code s) (line : Nat) (slot : Slot) :
    (s.placeholder? line slot = none ∧
        code.skip? (s.code.action line slot).target = none) ∨
      ∃ branch, s.placeholder? line slot = some branch ∧
        (s.code.action line slot).target = .jump branch.line ∧
        code.isPlaceholder branch.line = true := by
  cases htarget : (s.code.action line slot).target with
  | exit status => left; simp [placeholder?, htarget]
  | jump next =>
    cases hp : code.isPlaceholder next with
    | false =>
      left
      simp [placeholder?, htarget, Code.isPlaceholder_congr h.kinds, hp, Code.skip?_of_not hp]
    | true =>
      right
      refine ⟨⟨(s.code.action line slot).write.getD slot.standIn, next⟩, ?_, rfl, hp⟩
      simp [placeholder?, htarget, Code.isPlaceholder_congr h.kinds, hp]

/-- An action whose walk has no step to go is done. -/
theorem doneAt_of_skip?_eq_none (h : Of code s) {line : Nat} {slot : Slot}
    (hend : code.skip? (s.code.action line slot).target = none) : DoneAt code s line slot := by
  intro e he
  exact Part.mem_unique (mem_eval.mpr ⟨h.target line slot, hend⟩) he

/-! A redirection ends with `follow`. It is safe when the placeholder's
white action lies on the walk, and it finishes the action when that white
action is done. -/

section Follow

variable {line next : Nat} {slot : Slot}

theorem action_follow (hline : line < s.code.size) (line' : Nat) (slot' : Slot) :
    (s.follow line slot next).code.action line' slot' =
      if line' = line ∧ slot' = slot then
        { s.code.action line slot with target := (s.code.action next .white).target }
      else s.code.action line' slot' :=
  Code.action_setAction s.code hline slot _ line' slot'

theorem Of.follow (h : Of code s) (hline : line < code.size)
    (hwalk : Reaches code.skip? (code.action line slot).target (.jump next))
    (hnext : code.isPlaceholder next = true) : Of code (s.follow line slot next) := by
  have hsize : line < s.code.size := h.size ▸ hline
  refine ⟨?_, ?_, ?_, ?_, h.lines, h.nodup⟩
  · rw [← h.kinds]
    exact Code.kinds_setAction _ _ _ _
  · intro line' slot'
    rw [action_follow hsize]
    split
    · next heq => obtain ⟨rfl, rfl⟩ := heq; exact h.write _ _
    · exact h.write _ _
  · intro line' slot'
    rw [action_follow hsize]
    split
    · next heq => obtain ⟨rfl, rfl⟩ := heq; exact h.direction _ _
    · exact h.direction _ _
  · intro line' slot'
    rw [action_follow hsize]
    split
    · next heq =>
      obtain ⟨rfl, rfl⟩ := heq
      have hstep : Reaches code.skip? (code.action line' slot').target
          (code.action next .white).target := hwalk.tail (Code.skip?_placeholder hnext)
      exact hstep.trans (h.target next .white)
    · exact h.target _ _

theorem doneAt_follow (hline : line < s.code.size)
    (hwalk : Reaches code.skip? (code.action line slot).target (.jump next))
    (hnext : code.isPlaceholder next = true)
    (hdone : ∀ e ∈ eval code.skip? (code.action line slot).target, DoneAt code s next .white) :
    DoneAt code (s.follow line slot next) line slot := by
  intro e he
  rw [action_follow hline, if_pos ⟨rfl, rfl⟩]
  have hstep : Reaches code.skip? (code.action line slot).target
      (code.action next .white).target := hwalk.tail (Code.skip?_placeholder hnext)
  exact hdone e he e (mem_eval_of_reaches hstep he)

theorem keeps_follow (hline : line < s.code.size)
    (hdone : DoneAt code (s.follow line slot next) line slot) :
    Keeps code s (s.follow line slot next) := by
  intro line' slot' h
  by_cases heq : line' = line ∧ slot' = slot
  · obtain ⟨rfl, rfl⟩ := heq
    exact hdone
  · intro e he
    rw [action_follow hline, if_neg heq]
    exact h e he

end Follow

theorem Settled.mono {s' : Collapsing} {stack : List Nat} (h : Settled code s stack)
    (hkeeps : Keeps code s s') (hvisited : s'.visited = s.visited) : Settled code s' stack := by
  intro b hb
  rw [hvisited] at hb
  rcases h b hb with hstack | hdone
  · exact .inl hstack
  · exact .inr fun slot => hkeeps _ _ (hdone slot)

theorem Settled.push {stack : List Nat} (h : Settled code s stack) (branch : Branch) :
    Settled code { s with visited := branch :: s.visited } (branch.line :: stack) := by
  intro b hb
  rcases List.mem_cons.mp hb with rfl | hb
  · exact .inl List.mem_cons_self
  · exact (h b hb).imp (List.mem_cons_of_mem _) id

/-- A line leaves the stack once both its actions are done. -/
theorem Settled.pop {line : Nat} {stack : List Nat} (h : Settled code s (line :: stack))
    (hwhite : DoneAt code s line .white) (hcolor : DoneAt code s line .color) :
    Settled code s stack := by
  intro b hb
  rcases h b hb with hmem | hdone
  · rcases List.mem_cons.mp hmem with heq | hmem
    · right
      intro slot
      rw [heq]
      cases slot with
      | white => exact hwhite
      | color => exact hcolor
    · exact .inl hmem
  · exact .inr hdone

/-- What one redirection of an action achieves, given the lines under way. -/
structure Redirected (code : Code) (s s' : Collapsing) (line : Nat) (slot : Slot)
    (stack : List Nat) : Prop where
  of : Of code s'
  settled : Settled code s' stack
  done : DoneAt code s' line slot
  keeps : Keeps code s s'
  grows : s.visited.length ≤ s'.visited.length

/-- Beginning on a line: its branch is visited and its line under way. -/
theorem Of.visit (h : Of code s) {branch : Branch} (hline : branch.line < code.size)
    (hnew : branch ∉ s.visited) : Of code { s with visited := branch :: s.visited } where
  kinds := h.kinds
  write := h.write
  direction := h.direction
  target := h.target
  lines := by
    intro b hb
    rcases List.mem_cons.mp hb with rfl | hb
    · exact hline
    · exact h.lines b hb
  nodup := List.nodup_cons.mpr ⟨hnew, h.nodup⟩

section Redirect

variable {line : Nat} {slot : Slot} {stack : List Nat} {branch : Branch}

/-- Every line under way leads, through placeholders, to this action. -/
def UnderWay (code : Code) (stack : List Nat) (line : Nat) (slot : Slot) : Prop :=
  ∀ n ∈ stack, Reaches₁ code.skip? (.jump n) (code.action line slot).target

theorem UnderWay.push (hone : code.OneTarget) (h : UnderWay code stack line slot)
    (hwalk : Reaches code.skip? (code.action line slot).target (.jump branch.line))
    (hp : code.isPlaceholder branch.line = true) (slot' : Slot) :
    UnderWay code (branch.line :: stack) branch.line slot' := by
  have hstep := Code.skip?_placeholder hp
  intro n hn
  rw [hone branch.line slot' hp]
  rcases List.mem_cons.mp hn with rfl | hn
  · exact .single hstep
  · exact ((h n hn).trans_left hwalk).tail hstep

/-- A placeholder that was begun before is finished, or it is still under way
on a walk that goes round. -/
theorem redirected_of_visited (hof : Of code s) (hsettled : Settled code s stack)
    (hline : line < code.size) (hstack : UnderWay code stack line slot)
    (hwalk : Reaches code.skip? (code.action line slot).target (.jump branch.line))
    (hp : code.isPlaceholder branch.line = true) (hseen : branch ∈ s.visited) :
    Redirected code s (s.follow line slot branch.line) line slot stack := by
  have hsize : line < s.code.size := hof.size ▸ hline
  have hdone : DoneAt code (s.follow line slot branch.line) line slot := by
    refine doneAt_follow hsize hwalk hp fun e he => ?_
    rcases hsettled branch hseen with hmem | hdone
    · exact absurd ((hstack _ hmem).trans_left hwalk)
        (not_reaches₁_self (mem_eval_of_reaches hwalk he))
    · exact hdone .white
  have hkeeps := keeps_follow hsize hdone
  exact ⟨hof.follow hline hwalk hp, hsettled.mono hkeeps rfl, hdone, hkeeps, le_rfl⟩

/-- A placeholder that is new is redirected first, and then followed. -/
theorem Redirected.follow {s₁ s₂ : Collapsing} (hline : line < code.size)
    (hwalk : Reaches code.skip? (code.action line slot).target (.jump branch.line))
    (hp : code.isPlaceholder branch.line = true)
    (hwhite : Redirected code { s with visited := branch :: s.visited } s₁ branch.line .white
      (branch.line :: stack))
    (hcolor : Redirected code s₁ s₂ branch.line .color (branch.line :: stack)) :
    Redirected code s (s₂.follow line slot branch.line) line slot stack := by
  have hsize : line < s₂.code.size := hcolor.of.size ▸ hline
  have hwhite₂ := hcolor.keeps _ _ hwhite.done
  have hdone := doneAt_follow hsize hwalk hp fun _ _ => hwhite₂
  have hkeeps := keeps_follow hsize hdone
  refine ⟨hcolor.of.follow hline hwalk hp, ?_, hdone, ?_, ?_⟩
  · exact (hcolor.settled.pop hwhite₂ hcolor.done).mono hkeeps rfl
  · exact fun l t h => hkeeps l t (hcolor.keeps l t (hwhite.keeps l t h))
  · have h₁ := hwhite.grows
    simp only [List.length_cons] at h₁
    exact Nat.le_trans (by omega) hcolor.grows

end Redirect

/-- One redirection does its work. The induction is on the depth, which a
new branch at every level keeps from running out. -/
theorem redirect_spec (hone : code.OneTarget) :
    ∀ (depth : Nat) (s : Collapsing) (line : Nat) (slot : Slot) (stack : List Nat),
      Of code s → Settled code s stack → line < code.size → UnderWay code stack line slot →
      code.branchCount < depth + s.visited.length →
      Redirected code s (redirect depth s line slot) line slot stack
  | 0, s, line, slot, stack, hof, _, _, _, hdepth => by
      have hle : s.visited.length ≤ code.branchCount := Branch.length_le hof.nodup hof.lines
      omega
  | depth + 1, s, line, slot, stack, hof, hsettled, hline, hstack, hdepth => by
      rcases placeholder?_cases hof line slot with ⟨hnone, hend⟩ | ⟨branch, hsome, htarget, hp⟩
      · rw [redirect, hnone]
        exact ⟨hof, hsettled, doneAt_of_skip?_eq_none hof hend, fun _ _ h => h, le_rfl⟩
      · have hwalk : Reaches code.skip? (code.action line slot).target (.jump branch.line) :=
          htarget ▸ hof.target line slot
        simp only [redirect, hsome, List.contains_iff_mem]
        by_cases hseen : branch ∈ s.visited
        · rw [if_pos hseen]
          exact redirected_of_visited hof hsettled hline hstack hwalk hp hseen
        · rw [if_neg hseen]
          have hlt : branch.line < code.size := Code.lt_size_of_isPlaceholder hp
          have hstack' := hstack.push hone hwalk hp
          have hwhite := redirect_spec hone depth _ branch.line .white _ (hof.visit hlt hseen)
            (hsettled.push branch) hlt (hstack' .white) (by simp only [List.length_cons]; omega)
          have hgrows := hwhite.grows
          simp only [List.length_cons] at hgrows
          have hcolor := redirect_spec hone depth _ branch.line .color _ hwhite.of hwhite.settled hlt
            (hstack' .color) (by omega)
          exact hwhite.follow hline hwalk hp hcolor

/-! ## The whole pass -/

/-- What the pass has achieved once the lines of a list were redirected. -/
structure Passed (code : Code) (s s' : Collapsing) (lines : List Nat) : Prop where
  of : Of code s'
  settled : Settled code s' []
  done : ∀ line ∈ lines, ∀ slot, DoneAt code s' line slot
  keeps : Keeps code s s'

/-- Redirecting both actions of a line. -/
theorem redirectLine_spec (hone : code.OneTarget) (hof : Of code s)
    (hsettled : Settled code s []) {line : Nat} (hline : line < code.size) :
    Passed code s (redirectLine (code.branchCount + 1) s line) [line] := by
  have hw := redirect_spec hone (code.branchCount + 1) s line .white [] hof hsettled hline
    (by simp [UnderWay]) (by omega)
  have hc := redirect_spec hone (code.branchCount + 1) _ line .color [] hw.of hw.settled hline
    (by simp [UnderWay]) (by omega)
  refine ⟨hc.of, hc.settled, ?_, fun l t h => hc.keeps l t (hw.keeps l t h)⟩
  intro line' hmem slot
  obtain rfl : line' = line := by simpa using hmem
  cases slot with
  | white => exact hc.keeps _ _ hw.done
  | color => exact hc.done

theorem foldl_redirectLine_spec (hone : code.OneTarget) :
    ∀ (lines : List Nat) (s : Collapsing), Of code s → Settled code s [] →
      (∀ line ∈ lines, line < code.size) →
      Passed code s (lines.foldl (redirectLine (code.branchCount + 1)) s) lines
  | [], _, hof, hsettled, _ => ⟨hof, hsettled, by simp, fun _ _ h => h⟩
  | line :: rest, s, hof, hsettled, hlines => by
      have h₁ := redirectLine_spec hone hof hsettled (hlines line List.mem_cons_self)
      have h₂ := foldl_redirectLine_spec hone rest _ h₁.of h₁.settled
        (fun l hl => hlines l (List.mem_cons_of_mem _ hl))
      refine ⟨h₂.of, h₂.settled, ?_, fun l t h => h₂.keeps l t (h₁.keeps l t h)⟩
      intro l hl slot
      rcases List.mem_cons.mp hl with rfl | hl
      · exact h₂.keeps _ _ (h₁.done l List.mem_cons_self slot)
      · exact h₂.done l hl slot

end Collapsing

namespace Code

variable {code : Code}

theorem passed_collapse (hone : code.OneTarget) :
    Collapsing.Passed code ⟨code, []⟩
      ((List.range code.size).foldl (Collapsing.redirectLine (code.branchCount + 1)) ⟨code, []⟩)
      (List.range code.size) :=
  Collapsing.foldl_redirectLine_spec hone _ _ (.start code) (by simp [Collapsing.Settled])
    (by simp)

/-- Collapsing changes no kind. -/
theorem kinds_collapse (hone : code.OneTarget) : code.collapse.kinds = code.kinds :=
  (passed_collapse hone).of.kinds

/-- Collapsing changes nothing of an action but its target. -/
theorem collapse_action_eq (hone : code.OneTarget) (line : Nat) (slot : Slot) :
    code.collapse.action line slot =
      { code.action line slot with target := (code.collapse.action line slot).target } := by
  have hwrite : (code.collapse.action line slot).write = (code.action line slot).write :=
    (passed_collapse hone).of.write line slot
  have hdirection : (code.collapse.action line slot).direction = (code.action line slot).direction :=
    (passed_collapse hone).of.direction line slot
  show code.collapse.action line slot = ⟨_, _, _⟩
  rw [← hwrite, ← hdirection]

/-- Every target is moved along its own walk. -/
theorem collapse_reaches (hone : code.OneTarget) (line : Nat) (slot : Slot) :
    Reaches code.skip? (code.action line slot).target (code.collapse.action line slot).target :=
  (passed_collapse hone).of.target line slot

/-- A walk that ends is followed to its end. -/
theorem collapse_eval (hone : code.OneTarget) (line : Nat) (slot : Slot) {e : Target}
    (he : e ∈ eval code.skip? (code.action line slot).target) :
    (code.collapse.action line slot).target = e := by
  rcases Nat.lt_or_ge line code.size with hlt | hge
  · exact (passed_collapse hone).done line (List.mem_range.mpr hlt) slot e he
  · have hsize : code.collapse.size = code.size := size_congr (kinds_collapse hone)
    rw [action_of_ge hge] at he
    rw [action_of_ge (hsize ▸ hge)]
    exact Part.mem_unique (mem_eval.mpr ⟨.refl, rfl⟩) he

/-! ## Placeholders that fall through -/

/-- Where a line without a jump goes on. -/
def following (code : Code) (line : Nat) : Target :=
  if line + 1 < code.size then .jump (line + 1) else .exit 0

/-- Every placeholder does nothing but go on to the next line. -/
def FallsThrough (code : Code) : Prop :=
  ∀ line slot, code.isPlaceholder line = true →
    code.action line slot = .goOn (code.following line)

/-- The first line from `line` on that holds an instruction, or the end of
the program. -/
def landing (code : Code) (line : Nat) : Target :=
  match (List.range' line (code.size - line)).find? (fun l => !code.isPlaceholder l) with
  | some next => .jump next
  | none => .exit 0

/-- Where a target leads when placeholders are passed over. -/
def settle (code : Code) : Target → Target
  | .jump line => code.landing line
  | .exit status => .exit status

theorem FallsThrough.oneTarget (h : code.FallsThrough) : code.OneTarget := by
  intro line slot hp
  rw [h line slot hp, h line .white hp]

theorem landing_of_ge {line : Nat} (h : code.size ≤ line) : code.landing line = .exit 0 := by
  simp [landing, Nat.sub_eq_zero_of_le h]

theorem landing_of_lt {line : Nat} (h : line < code.size) :
    code.landing line = if code.isPlaceholder line then code.landing (line + 1) else .jump line := by
  have hcount : code.size - line = (code.size - (line + 1)) + 1 := by omega
  rw [landing, hcount, List.range'_succ, List.find?_cons]
  cases hp : code.isPlaceholder line <;> simp [landing]

/-- A landing is the end, or a line that can run. -/
theorem landing_cases (code : Code) (line : Nat) :
    code.landing line = .exit 0 ∨ ∃ next, code.landing line = .jump next ∧ code.CanRun next := by
  unfold landing
  cases hfind : (List.range' line (code.size - line)).find? (fun l => !code.isPlaceholder l) with
  | none => exact .inl rfl
  | some next =>
    refine .inr ⟨next, rfl, ?_, by simpa using List.find?_some hfind⟩
    have hmem := List.mem_range'_1.mp (List.mem_of_find?_eq_some hfind)
    omega

/-- The landing of a line is where the walk from it ends. -/
theorem landing_mem_eval (h : code.FallsThrough) {line : Nat} (hlt : line < code.size) :
    code.landing line ∈ eval code.skip? (.jump line) := by
  induction hk : code.size - line generalizing line with
  | zero => omega
  | succ k ih =>
    rw [landing_of_lt hlt]
    cases hp : code.isPlaceholder line with
    | false => exact mem_eval.mpr ⟨.refl, skip?_of_not hp⟩
    | true =>
      have hstep : code.skip? (.jump line) = some (code.following line) := by
        rw [skip?_placeholder hp, h line .white hp]
        rfl
      rw [reaches_eval (.single hstep), if_pos rfl]
      by_cases hnext : line + 1 < code.size
      · rw [following, if_pos hnext]
        exact ih hnext (by omega)
      · rw [following, if_neg hnext, landing_of_ge (by omega)]
        exact mem_eval.mpr ⟨.refl, rfl⟩

theorem settle_mem_eval (h : code.FallsThrough) {t : Target}
    (ht : ∀ line, t = .jump line → line < code.size) : code.settle t ∈ eval code.skip? t := by
  cases t with
  | exit status => exact mem_eval.mpr ⟨.refl, rfl⟩
  | jump line => exact landing_mem_eval h (ht line rfl)

/-- Where placeholders fall through, collapsing settles every target and
changes nothing else. -/
theorem collapse_action (h : code.FallsThrough) (hrange : code.InRange) (line : Nat) (slot : Slot) :
    code.collapse.action line slot =
      { code.action line slot with target := code.settle (code.action line slot).target } := by
  rw [collapse_action_eq h.oneTarget, collapse_eval h.oneTarget line slot
    (settle_mem_eval h (hrange line slot))]

end Code

end PixelTurtle
