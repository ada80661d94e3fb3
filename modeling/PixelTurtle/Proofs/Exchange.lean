/-
PixelTurtle.Proofs.Exchange — a program in the place of another.

A machine does not ask its program for more than where a run begins and for one
action at a time, and of an action it sees no more than what it paints, where it
moves and where it goes on. `Program.StandsInFor` says that two programs agree on
that, for all canvases of a kind that no instruction leads out of. Then it does
not matter which of the two is loaded:

* `Machine.tick_load`, `Machine.step_load` — one instruction and one step, its
  report included.
* `Machine.perform_load` — whatever is done with a machine.
-/
import PixelTurtle.Proofs.Bounds

namespace PixelTurtle

/-- On the canvases of a kind, `q` does what `p` does, and no instruction of them
makes a canvas of another kind. -/
structure Program.StandsInFor (kind : Canvas → Prop) (q p : Program) : Prop where
  size : q.size = p.size
  entry : q.entry = p.entry
  direction : ∀ line slot, (q.code.action line slot).direction = (p.code.action line slot).direction
  target : ∀ line slot, (q.code.action line slot).target = (p.code.action line slot).target
  paint : ∀ canvas offset line, kind canvas →
    Machine.applyWrite canvas offset
        (q.code.action line (Slot.of (canvas.pixelAt offset))).write =
      Machine.applyWrite canvas offset
        (p.code.action line (Slot.of (canvas.pixelAt offset))).write
  kept : ∀ canvas offset line, kind canvas →
    kind (Machine.applyWrite canvas offset
      (p.code.action line (Slot.of (canvas.pixelAt offset))).write)

namespace Machine

/-- The machine with another program in it. -/
def load (q : Program) (m : Machine) : Machine :=
  { m with program := q }

@[simp] theorem canvas_load (q : Program) (m : Machine) : (m.load q).canvas = m.canvas := rfl

@[simp] theorem line_load (q : Program) (m : Machine) : (m.load q).line = m.line := rfl

@[simp] theorem cursor_load (q : Program) (m : Machine) : (m.load q).cursor = m.cursor := rfl

@[simp] theorem state_load (q : Program) (m : Machine) : (m.load q).state = m.state := rfl

@[simp] theorem executed_load (q : Program) (m : Machine) : (m.load q).executed = m.executed := rfl

@[simp] theorem exitStatus?_load (q : Program) (m : Machine) :
    (m.load q).exitStatus? = m.exitStatus? := rfl

theorem canvas_tick (m : Machine) : m.tick.canvas = m.acted.canvas := by
  rw [tick_eq]
  split <;> rfl

theorem canvas_reset (m : Machine) (canvas : Canvas) : (m.reset canvas).canvas = canvas := by
  unfold reset
  split <;> rfl

variable {kind : Canvas → Prop} {p q : Program} {m : Machine}

section

variable (h : q.StandsInFor kind p)
include h

theorem kind_tick (hp : m.program = p) (hm : kind m.canvas) : kind m.tick.canvas := by
  subst hp
  rw [canvas_tick]
  exact h.kept m.canvas _ m.line hm

/-- One instruction does the same in both programs. -/
theorem tick_load (hp : m.program = p) (hm : kind m.canvas) :
    (m.load q).tick = m.tick.load q := by
  subst hp
  have hdirection : (m.load q).nextAction.direction = m.nextAction.direction :=
    h.direction m.line (Slot.of m.pixel)
  have htarget : (m.load q).nextAction.target = m.nextAction.target :=
    h.target m.line (Slot.of m.pixel)
  have hpaint : (m.load q).config.painted (m.load q).nextAction.write =
      m.config.painted m.nextAction.write := h.paint m.canvas _ m.line hm
  have hacted : (m.load q).acted = m.acted.load q := by
    simp only [acted, hpaint]
    rfl
  rw [tick_eq, tick_eq, hdirection, htarget, hacted, cursor_load, canvas_load]
  cases m.cursor.move? m.nextAction.direction m.canvas.width m.canvas.height with
  | none => rfl
  | some cursor => cases m.nextAction.target <;> rfl

/-- The loop of a step, by induction on its budget. -/
theorem steps_load (breakpoints : List Nat) :
    ∀ (budget executed : Nat) (m : Machine), m.program = p → kind m.canvas →
      steps breakpoints budget executed (m.load q) =
          ((steps breakpoints budget executed m).1.load q,
            (steps breakpoints budget executed m).2) ∧
        kind (steps breakpoints budget executed m).1.canvas
  | 0, executed, m, _, hm => ⟨rfl, hm⟩
  | budget + 1, executed, m, hp, hm => by
      have hkind := kind_tick h hp hm
      have hrest := steps_load breakpoints budget (executed + 1) m.tick
        ((program_tick m).trans hp) hkind
      rw [steps, steps, tick_load h hp hm, state_load, line_load]
      cases m.tick.state with
      | exited status => exact ⟨rfl, hkind⟩
      | _ =>
        dsimp only
        by_cases hstop : breakpoints.contains m.tick.line = true
        · rw [if_pos hstop, if_pos hstop]
          exact ⟨rfl, hkind⟩
        · rw [if_neg hstop, if_neg hstop]
          exact hrest

/-- A step does and reports the same in both programs. -/
theorem step_load (hp : m.program = p) (hm : kind m.canvas) (budget : Nat)
    (breakpoints : List Nat) :
    (m.load q).step budget breakpoints =
        ((m.step budget breakpoints).1.load q, (m.step budget breakpoints).2) ∧
      kind (m.step budget breakpoints).1.canvas := by
  rw [step, step, state_load]
  cases m.state with
  | exited status => exact ⟨rfl, hm⟩
  | _ => exact steps_load h breakpoints budget 0 { m with state := .running } hp hm

theorem reset_load (hp : m.program = p) (canvas : Canvas) :
    (m.load q).reset canvas = (m.reset canvas).load q := by
  subst hp
  have hentry : (m.load q).program.entry = m.program.entry := h.entry
  rw [reset, reset, hentry]
  cases m.program.entry <;> rfl

/-- Starting the one program is starting the other and exchanging them. -/
theorem start_load (canvas : Canvas) : start q canvas = (start p canvas).load q := by
  rw [start, start, ← reset_load h rfl, h.size]
  rfl

theorem apply_load (hp : m.program = p) (hm : kind m.canvas) {o : Operation}
    (ho : ∀ canvas, o = .reset canvas → kind canvas) :
    (m.load q).apply o = (m.apply o).load q ∧ kind (m.apply o).canvas := by
  cases o with
  | reset canvas =>
    refine ⟨reset_load h hp canvas, ?_⟩
    rw [apply, canvas_reset]
    exact ho canvas rfl
  | step budget breakpoints =>
    obtain ⟨hstep, hkind⟩ := step_load h hp hm budget breakpoints
    exact ⟨congrArg Prod.fst hstep, hkind⟩
  | clearCoverage => exact ⟨rfl, hm⟩

/-- Whatever is done with a machine, it is the same with both programs, as long
as all canvases it is given are of the kind. -/
theorem perform_load {operations : List Operation}
    (ho : ∀ canvas, .reset canvas ∈ operations → kind canvas) (hp : m.program = p)
    (hm : kind m.canvas) :
    (m.load q).perform operations = (m.perform operations).load q ∧
      kind (m.perform operations).canvas := by
  induction operations generalizing m with
  | nil => exact ⟨rfl, hm⟩
  | cons o rest ih =>
    obtain ⟨happly, hkind⟩ := apply_load h hp hm (o := o) fun canvas heq =>
      ho canvas (heq ▸ List.mem_cons_self)
    have hrest := ih (fun canvas hmem => ho canvas (List.mem_cons_of_mem _ hmem))
      ((program_apply m o).trans hp) hkind
    rw [← happly] at hrest
    exact hrest

end

end Machine

end PixelTurtle
