/-
PixelTurtle.Proofs.Slicing — how a run is cut into steps does not matter.

A step executes as many instructions as it reports, and runs add up
(`Machine.after_add`). So a machine that was stepped several times is the
machine after one run of all the instructions that were reported
(`Machine.stepAll_fst`).

`Machine.Reports` is what a report has to say of the machine before and after
a step: how much of the budget was used, and whether the step ended by an exit
or on a breakpoint. `Machine.step_reports` shows it of every step, by one
lemma for each of the ways in which the loop of a step goes on.
-/
import PixelTurtle.Proofs.Run

namespace PixelTurtle

namespace Machine

variable {m : Machine} {breakpoints : List Nat}

/-! ## Runs after runs -/

theorem wake_of_isExited (h : m.isExited = true) : m.wake = m := by
  simp [wake, h]

theorem wake_of_state (h : m.state = .running) : m.wake = m := by
  unfold wake
  split
  · rfl
  · rw [← h]

/-- A jump leaves the state of a run alone. -/
theorem state_tick (h : m.tick.isExited = false) : m.tick.state = m.state := by
  revert h
  obtain ⟨program, canvas, line, cursor, state, executed, coverage⟩ := m
  unfold tick
  dsimp only
  split
  · intro h
    simp [isExited, exitStatus?] at h
  · split
    · intro h
      simp [isExited, exitStatus?] at h
    · intro _
      rfl

theorem state_advance (h : m.advance.isExited = false) : m.advance.state = m.state := by
  unfold advance at h ⊢
  split
  · rfl
  · next hm =>
    rw [if_neg hm] at h
    exact state_tick h

theorem isExited_of_advance (h : m.advance.isExited = false) : m.isExited = false := by
  cases hm : m.isExited with
  | false => rfl
  | true => rwa [advance_of_isExited hm, hm] at h

/-- A run has begun once it was given a budget, if only of 0. -/
theorem state_after {n : Nat} (h : (m.after n).isExited = false) :
    (m.after n).state = .running := by
  induction n with
  | zero =>
    rw [after_zero] at h ⊢
    rw [isExited_wake] at h
    simp [wake, h]
  | succ n ih =>
    rw [after_succ] at h ⊢
    rw [state_advance h]
    exact ih (isExited_of_advance h)

theorem wake_after (m : Machine) (n : Nat) : (m.after n).wake = m.after n := by
  cases h : (m.after n).isExited with
  | true => exact wake_of_isExited h
  | false => exact wake_of_state (state_after h)

theorem wake_wake (m : Machine) : m.wake.wake = m.wake := by
  have h := wake_after m 0
  rwa [after_zero] at h

theorem after_wake (m : Machine) (n : Nat) : m.wake.after n = m.after n := by
  rw [after_eq_iterate, wake_wake, after_eq_iterate]

/-- Two runs in a row are one run. -/
theorem after_add (m : Machine) (a b : Nat) : m.after (a + b) = (m.after a).after b := by
  rw [after_eq_iterate (m.after a), wake_after, after_eq_iterate, after_eq_iterate,
    ← Function.iterate_add_apply, Nat.add_comm]

theorem after_of_isExited (h : m.isExited = true) (n : Nat) : m.after n = m := by
  rw [after_eq_iterate, wake_of_isExited h, Function.iterate_fixed (advance_of_isExited h)]

/-- The first instruction of a run that has begun. -/
theorem after_one (h : m.isExited = false) (hwake : m.wake = m) : m.after 1 = m.tick := by
  rw [after_eq_iterate, hwake, Function.iterate_one]
  simp [advance, h]

theorem wake_tick (h : m.isExited = false) (hwake : m.wake = m) : m.tick.wake = m.tick := by
  rw [← after_one h hwake, wake_after]

/-! ## Reports -/

/-- What a report says of a step of `m` that led to the machine beside it.
No jump of the step but the last can have been onto a breakpoint, so the last
is the first such jump when a breakpoint is reported. -/
structure Reports (m : Machine) (budget : Nat) (breakpoints : List Nat)
    (out : Machine × StepReport) : Prop where
  executed_le : out.2.executed ≤ budget
  stops : out.2.executed < budget → out.2.exit.isSome = true ∨ out.2.breakpoint = true
  exit_iff : ∀ status, out.2.exit = some status ↔ out.1.state = .exited status
  breakpoint_iff : out.2.breakpoint = true ↔
    0 < out.2.executed ∧ out.2.exit = none ∧ out.1.line ∈ breakpoints
  passes : ∀ n, 0 < n → n < out.2.executed → (m.after n).line ∉ breakpoints

/-- A step as seen after one more instruction. -/
def countOne (out : Machine × StepReport) : Machine × StepReport :=
  (out.1, { out.2 with executed := 1 + out.2.executed })

/-- The loop counts on from wherever its counter stands. -/
theorem steps_shift (breakpoints : List Nat) :
    ∀ (budget executed : Nat) (m : Machine), steps breakpoints budget executed m =
      ((steps breakpoints budget 0 m).1,
        { (steps breakpoints budget 0 m).2 with
          executed := executed + (steps breakpoints budget 0 m).2.executed })
  | 0, executed, m => rfl
  | budget + 1, executed, m => by
      rw [steps, steps]
      dsimp only
      split
      · rfl
      · split
        · rfl
        · rw [steps_shift breakpoints budget (executed + 1), steps_shift breakpoints budget (0 + 1)]
          simp [Nat.add_assoc]

/-- One instruction of a step: it exits, or jumps onto a breakpoint, or the
step goes on. -/
theorem step_succ (h : m.isExited = false) (hwake : m.wake = m) (budget : Nat)
    (breakpoints : List Nat) :
    (∃ status, m.tick.state = .exited status ∧
        m.step (budget + 1) breakpoints = (m.tick, ⟨1, some status, false⟩)) ∨
      m.tick.isExited = false ∧ m.tick.line ∈ breakpoints ∧
        m.step (budget + 1) breakpoints = (m.tick, ⟨1, none, true⟩) ∨
      m.tick.isExited = false ∧ m.tick.line ∉ breakpoints ∧
        m.step (budget + 1) breakpoints = countOne (m.tick.step budget breakpoints) := by
  rw [step_of_not_isExited h, hwake, steps]
  split
  · next status hstate => exact .inl ⟨status, hstate, rfl⟩
  · next hstate =>
    have halive := isExited_eq_false_of_state hstate
    right
    split
    · next hline => exact .inl ⟨halive, by simpa using hline, rfl⟩
    · next hline =>
      right
      refine ⟨halive, by simpa using hline, ?_⟩
      rw [step_of_not_isExited halive, wake_tick h hwake, steps_shift]
      rfl

theorem reports_exit {budget : Nat} {m' : Machine} {status : Status}
    (h : m'.state = .exited status) :
    m.Reports (budget + 1) breakpoints (m', ⟨1, some status, false⟩) where
  executed_le := by simp
  stops _ := .inl rfl
  exit_iff := by simp [h]
  breakpoint_iff := by simp
  passes n hpos hlt := by
    have hlt' : n < 1 := hlt
    omega

theorem reports_breakpoint {budget : Nat} {m' : Machine} (h : m'.isExited = false)
    (hline : m'.line ∈ breakpoints) :
    m.Reports (budget + 1) breakpoints (m', ⟨1, none, true⟩) where
  executed_le := by simp
  stops _ := .inr rfl
  exit_iff status := by
    constructor
    · intro hnone
      simp at hnone
    · intro hstate
      simp [isExited_of_state hstate] at h
  breakpoint_iff := by simp [hline]
  passes n hpos hlt := by
    have hlt' : n < 1 := hlt
    omega

/-- An instruction that led neither to an exit nor onto a breakpoint, and a
step after it. -/
theorem Reports.countOne {budget : Nat} (h : m.isExited = false) (hwake : m.wake = m)
    (hline : m.tick.line ∉ breakpoints)
    (hrest : m.tick.Reports budget breakpoints (m.tick.step budget breakpoints)) :
    m.Reports (budget + 1) breakpoints (countOne (m.tick.step budget breakpoints)) := by
  have hfst := step_eq_after m.tick budget breakpoints
  have hfirst : ∀ n, m.after (1 + n) = m.tick.after n := by
    intro n
    rw [after_add, after_one h hwake]
  have hzero : m.tick.after 0 = m.tick := by rw [← hfirst, after_one h hwake]
  generalize m.tick.step budget breakpoints = out at hrest hfst ⊢
  obtain ⟨m', r⟩ := out
  refine ⟨?_, ?_, hrest.exit_iff, ?_, ?_⟩
  · exact (Nat.add_comm _ _).trans_le (Nat.succ_le_succ hrest.executed_le)
  · intro hlt
    have hlt' : 1 + r.executed < budget + 1 := hlt
    exact hrest.stops (show r.executed < budget by omega)
  · change r.breakpoint = true ↔ 0 < 1 + r.executed ∧ r.exit = none ∧ m'.line ∈ breakpoints
    have hbreakpoint : r.breakpoint = true ↔
        0 < r.executed ∧ r.exit = none ∧ m'.line ∈ breakpoints := hrest.breakpoint_iff
    rw [hbreakpoint]
    constructor
    · rintro ⟨-, hexit, hmem⟩
      exact ⟨by omega, hexit, hmem⟩
    · rintro ⟨-, hexit, hmem⟩
      -- with nothing executed since, the machine would stand where the jump led
      refine ⟨Nat.pos_of_ne_zero fun hnone => hline ?_, hexit, hmem⟩
      have hsame : m' = m.tick := by simpa [hnone, hzero] using hfst
      exact hsame ▸ hmem
  · intro n hpos hlt
    have hlt' : n < 1 + r.executed := hlt
    obtain ⟨k, rfl⟩ : ∃ k, n = 1 + k := ⟨n - 1, by omega⟩
    rw [hfirst]
    rcases Nat.eq_zero_or_pos k with rfl | hk
    · rwa [hzero]
    · exact hrest.passes k hk (show k < r.executed by omega)

theorem Reports.of_wake {budget : Nat} {out : Machine × StepReport}
    (h : m.wake.Reports budget breakpoints out) : m.Reports budget breakpoints out where
  executed_le := h.executed_le
  stops := h.stops
  exit_iff := h.exit_iff
  breakpoint_iff := h.breakpoint_iff
  passes n hpos hlt := by
    rw [← after_wake]
    exact h.passes n hpos hlt

/-- The loop of a step, by induction on its budget. -/
theorem step_reports_of_wake (breakpoints : List Nat) :
    ∀ (budget : Nat) (m : Machine), m.isExited = false → m.wake = m →
      m.Reports budget breakpoints (m.step budget breakpoints)
  | 0, m, h, hwake => by
      rw [step_of_not_isExited h, hwake, steps]
      refine ⟨Nat.le_refl 0, by simp, fun status => ?_, by simp, by simp⟩
      constructor
      · intro hnone
        simp at hnone
      · intro hstate
        simp [isExited_of_state hstate] at h
  | budget + 1, m, h, hwake => by
      rcases step_succ h hwake budget breakpoints with
        ⟨status, hstate, hstep⟩ | ⟨halive, hline, hstep⟩ | ⟨halive, hline, hstep⟩
      · rw [hstep]
        exact reports_exit hstate
      · rw [hstep]
        exact reports_breakpoint halive hline
      · rw [hstep]
        exact (step_reports_of_wake breakpoints budget m.tick halive (wake_tick h hwake)).countOne
          h hwake hline

/-- Every step reports what it did. -/
theorem step_reports (m : Machine) (budget : Nat) (breakpoints : List Nat) :
    m.Reports budget breakpoints (m.step budget breakpoints) := by
  cases h : m.isExited with
  | true =>
    obtain ⟨status, hstate⟩ := state_of_isExited h
    have hstep : m.step budget breakpoints = (m, ⟨0, some status, false⟩) := by
      simp [step, hstate]
    rw [hstep]
    exact ⟨Nat.zero_le _, fun _ => .inl rfl, by simp [hstate], by simp, by simp⟩
  | false =>
    have halive : m.wake.isExited = false := by rw [isExited_wake, h]
    have hstep : m.step budget breakpoints = m.wake.step budget breakpoints := by
      rw [step_of_not_isExited h, step_of_not_isExited halive, wake_wake]
    rw [hstep]
    exact (step_reports_of_wake breakpoints budget m.wake halive m.wake_wake).of_wake

/-! ## Steps in a row -/

/-- The arguments of one step. -/
structure StepCall where
  budget : Nat
  breakpoints : List Nat

/-- Step several times. Gives the reports in order. -/
def stepAll (m : Machine) : List StepCall → Machine × List StepReport
  | [] => (m, [])
  | call :: rest =>
      let (stepped, report) := m.step call.budget call.breakpoints
      let (last, reports) := stepped.stepAll rest
      (last, report :: reports)

/-- How many instructions several reports add up to. -/
def totalExecuted : List StepReport → Nat
  | [] => 0
  | report :: reports => report.executed + totalExecuted reports

theorem stepAll_cons (m : Machine) (call : StepCall) (rest : List StepCall) :
    m.stepAll (call :: rest) =
      (((m.step call.budget call.breakpoints).1.stepAll rest).1,
        (m.step call.budget call.breakpoints).2 ::
          ((m.step call.budget call.breakpoints).1.stepAll rest).2) := rfl

/-- Several steps leave the machine as one run does. Without any step it may
not even have begun. -/
theorem stepAll_fst {calls : List StepCall} (h : calls ≠ []) (m : Machine) :
    (m.stepAll calls).1 = m.after (totalExecuted (m.stepAll calls).2) := by
  induction calls generalizing m with
  | nil => exact absurd rfl h
  | cons call rest ih =>
    rw [stepAll_cons, totalExecuted, after_add, ← step_eq_after]
    cases rest with
    | nil =>
      change (m.step call.budget call.breakpoints).1 =
        (m.step call.budget call.breakpoints).1.after 0
      rw [step_eq_after, ← after_add, Nat.add_zero]
    | cons next others => exact ih (by simp) _

/-- Each of several steps reports what it did. -/
theorem stepAll_reports (calls : List StepCall) (m : Machine) {i : Nat} {call : StepCall}
    (hi : calls[i]? = some call) :
    ∃ report, (m.stepAll calls).2[i]? = some report ∧
      (m.stepAll (calls.take i)).1.Reports call.budget call.breakpoints
        ((m.stepAll (calls.take (i + 1))).1, report) := by
  induction calls generalizing m i with
  | nil => simp at hi
  | cons first rest ih =>
    cases i with
    | zero =>
      obtain rfl : first = call := by simpa using hi
      exact ⟨_, rfl, step_reports m first.budget first.breakpoints⟩
    | succ i =>
      obtain ⟨report, hreport, hreports⟩ :=
        ih (m.step first.budget first.breakpoints).1 (by simpa using hi)
      refine ⟨report, ?_, ?_⟩
      · rwa [stepAll_cons, List.getElem?_cons_succ]
      · simpa only [List.take_succ_cons, stepAll_cons] using hreports

/-- However a run is cut into steps, it comes to the same as one run of all
the instructions that were executed, and every step along the way reports
what it did. -/
theorem stepAll_eq_run (m : Machine) (calls : List StepCall) (hcalls : calls ≠ []) :
    (m.stepAll calls).1 = (m.run (totalExecuted (m.stepAll calls).2)).1 ∧
      ∀ i call, calls[i]? = some call →
        ∃ report, (m.stepAll calls).2[i]? = some report ∧
          (m.stepAll (calls.take i)).1.Reports call.budget call.breakpoints
            ((m.stepAll (calls.take (i + 1))).1, report) :=
  ⟨stepAll_fst hcalls m, fun _ _ hi => stepAll_reports calls m hi⟩

/-- A step of budget 0, one that a breakpoint ends, one that exits with its
last instruction, and one after the exit. -/
theorem stepAll_eq_run_four_steps :
    ∃ p canvas,
      Program.compile ⟨.palette, false, none⟩ "a: right goto b\nb: write red goto c\nc: exit 3" =
        .ok p ∧
      Canvas.blank 2 1 = .ok canvas ∧
      ((start p canvas).stepAll [⟨0, []⟩, ⟨5, [1]⟩, ⟨2, []⟩, ⟨4, [0]⟩]).2 =
        [⟨0, none, false⟩, ⟨1, none, true⟩, ⟨2, some 3, false⟩, ⟨0, some 3, false⟩] ∧
      ((start p canvas).stepAll [⟨0, []⟩, ⟨5, [1]⟩, ⟨2, []⟩, ⟨4, [0]⟩]).1 =
        ((start p canvas).run 3).1 ∧
      (start p canvas).Reports 0 [] (((start p canvas).stepAll [⟨0, []⟩]).1, ⟨0, none, false⟩) := by
  obtain ⟨p, canvas, hp, hcanvas, hreports⟩ : ∃ p canvas,
      Program.compile ⟨.palette, false, none⟩ "a: right goto b\nb: write red goto c\nc: exit 3" =
        .ok p ∧
      Canvas.blank 2 1 = .ok canvas ∧
      ((start p canvas).stepAll [⟨0, []⟩, ⟨5, [1]⟩, ⟨2, []⟩, ⟨4, [0]⟩]).2 =
        [⟨0, none, false⟩, ⟨1, none, true⟩, ⟨2, some 3, false⟩, ⟨0, some 3, false⟩] :=
    ⟨_, _, rfl, rfl, rfl⟩
  have h := stepAll_eq_run (start p canvas) [⟨0, []⟩, ⟨5, [1]⟩, ⟨2, []⟩, ⟨4, [0]⟩] (by simp)
  obtain ⟨report, hfirst, hspec⟩ := h.2 0 ⟨0, []⟩ rfl
  rw [hreports] at h hfirst
  obtain rfl : (⟨0, none, false⟩ : StepReport) = report := by simpa using hfirst
  exact ⟨p, canvas, hp, hcanvas, hreports, h.1, hspec⟩

end Machine

end PixelTurtle
