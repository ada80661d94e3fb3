/-
PixelTurtle.Proofs.Grading — grading tells the first test that fails.

`UnitTest.outcome` is the reference: a machine of its own for each test, given
one run of the whole limit. Grading instead resets one machine between tests
and runs it frame by frame.

* `Machine.Frames` — the loop over frames, with no bound on their number.
  Every frame executes an instruction, so the loop ends
  (`Machine.frames_runWithin`), and whatever the size of a frame it ends where
  one run does (`Machine.Frames.wake_eq`).
* `UnitTest.verify_runWithin` — what earlier tests left behind is not seen by
  the verdict on a later one.
* `grade_spec` — the report: the first failure if there is one, and otherwise
  a pass.
-/
import PixelTurtle.Grade
import PixelTurtle.Proofs.First
import PixelTurtle.Proofs.Slicing

namespace PixelTurtle

/-! ## Frames -/

namespace Machine

variable {m m' : Machine} {limits : Limits}

/-- The loop over frames leads from one machine to the other. -/
inductive Frames (limits : Limits) : Machine → Machine → Prop where
  | done {m : Machine} (h : m.isExited = true ∨ limits.maxInstructions ≤ m.executed) :
      Frames limits m m
  | frame {m m' : Machine} (halive : m.isExited = false)
      (hlimit : m.executed < limits.maxInstructions)
      (rest : Frames limits
        (m.run (min (max limits.frame 1) (limits.maxInstructions - m.executed))).1 m') :
      Frames limits m m'

theorem executed_advance (h : m.isExited = false) : m.advance.executed = m.executed + 1 := by
  simp only [advance, h]
  exact executed_tick m

/-- A run that has not ended executed its whole budget. -/
theorem executed_after_of_alive {n : Nat} (h : (m.after n).isExited = false) :
    (m.after n).executed = m.executed + n := by
  induction n with
  | zero => rw [after_zero, executed_wake, Nat.add_zero]
  | succ n ih =>
    rw [after_succ] at h ⊢
    have halive := isExited_of_advance h
    rw [executed_advance halive, ih halive, Nat.add_assoc]

theorem executed_le_after (m : Machine) (n : Nat) : m.executed ≤ (m.after n).executed := by
  rw [executed_after]
  exact Nat.le_add_right _ _

/-- A run that has not ended executes at least one instruction. -/
theorem executed_lt_after (h : m.isExited = false) {n : Nat} (hn : 0 < n) :
    m.executed < (m.after n).executed := by
  obtain ⟨k, rfl⟩ : ∃ k, n = 1 + k := ⟨n - 1, by omega⟩
  have hfirst : (m.after 1).executed = m.executed + 1 := by
    have halive : (m.after 0).isExited = false := by rw [after_zero, isExited_wake, h]
    rw [after_succ, executed_advance halive, executed_after_of_alive halive, Nat.add_zero]
  have hrest := executed_le_after (m.after 1) k
  rw [after_add]
  omega

/-- A run that has ended stays so. -/
theorem isExited_after_add {n : Nat} (h : (m.after n).isExited = true) (k : Nat) :
    (m.after (n + k)).isExited = true := by
  rw [after_add, after_of_isExited h, h]

/-- The loop ends before its bound on the number of frames is reached. -/
theorem frames_runFrames :
    ∀ (frames : Nat) (m : Machine), limits.maxInstructions - m.executed < frames →
      Frames limits m (runFrames limits frames m)
  | 0, m, h => by omega
  | frames + 1, m, h => by
      rw [runFrames]
      split
      · next hexited => exact .done (.inl hexited)
      · next halive =>
        have halive : m.isExited = false := by simpa using halive
        split
        · next hlimit => exact .done (.inr hlimit)
        · next hlimit =>
          -- a frame is never empty, so what is left of the limit shrinks
          have hbudget : 0 < min (max limits.frame 1) (limits.maxInstructions - m.executed) := by
            omega
          have hmore := executed_lt_after halive hbudget
          refine .frame halive (by omega) (frames_runFrames frames _ ?_)
          change limits.maxInstructions - (m.after _).executed < frames
          omega

theorem frames_runWithin (limits : Limits) (m : Machine) :
    Frames limits m (m.runWithin limits) :=
  frames_runFrames (limits.maxInstructions + 1) m (by omega)

/-- Frames of any size come to the same as one run. With no budget at all the
loop does not even begin the run, which is all that waking makes up for. -/
theorem Frames.wake_eq (h : Frames limits m m') :
    m'.wake = m.after (limits.maxInstructions - m.executed) := by
  induction h with
  | @done m h =>
    rcases h with hexited | hlimit
    · rw [wake_of_isExited hexited, after_of_isExited hexited]
    · rw [Nat.sub_eq_zero_of_le hlimit, after_zero]
  | @frame m m' halive hlimit rest ih =>
    generalize hbudget : min (max limits.frame 1) (limits.maxInstructions - m.executed) = budget
      at rest ih
    change m'.wake = (m.after budget).after _ at ih
    have hsplit : limits.maxInstructions - m.executed =
        budget + (limits.maxInstructions - m.executed - budget) := by omega
    rw [ih, hsplit, after_add]
    change (m.after budget).after (limits.maxInstructions - (m.after budget).executed) = _
    -- a frame that did not end the run used up its budget; after one that did,
    -- the rest of the limit does nothing
    cases hexited : (m.after budget).isExited with
    | true => rw [after_of_isExited hexited, after_of_isExited hexited]
    | false => rw [executed_after_of_alive hexited, Nat.sub_sub]

theorem wake_runWithin (h : m.executed = 0) (limits : Limits) :
    (m.runWithin limits).wake = m.after limits.maxInstructions := by
  rw [(frames_runWithin limits m).wake_eq, h, Nat.sub_zero]

theorem executed_reset (m : Machine) (canvas : Canvas) : (m.reset canvas).executed = 0 := by
  unfold reset
  split <;> rfl

theorem exitStatus?_eq_some {status : Status} :
    m.exitStatus? = some status ↔ m.state = .exited status := by
  unfold exitStatus?
  cases m.state <;> simp

/-- A run after a reset goes the way of a machine that is started on the canvas. -/
theorem config_after_reset (m : Machine) (canvas : Canvas) (n : Nat) :
    ((m.reset canvas).after n).config = ((start m.program canvas).after n).config := by
  rw [config_after, config_after, program_reset, program_start, config_reset, config_start]

/-- Nothing but the program and the coverage outlives a reset. -/
theorem reset_congr (hprogram : m.program = m'.program) (hcoverage : m.coverage = m'.coverage)
    (canvas : Canvas) : m.reset canvas = m'.reset canvas := by
  unfold reset
  rw [hprogram, hcoverage]

end Machine

/-! ## One test -/

namespace UnitTest

variable {t : UnitTest} {m m' : Machine}

/-- A machine of its own for a test, given one run. -/
def outcome (t : UnitTest) (p : Program) (budget : Nat) : Machine :=
  ((Machine.start p t.input).run budget).1

/-- What is wrong with a machine at the end of a test: it has not exited; or
the status is another than expected; or the status is right, and the canvas
has another size or other pixels than expected. -/
inductive Fails (t : UnitTest) (m : Machine) : TestFailure → Prop where
  | timedOut (h : m.isExited = false) : Fails t m .timedOut
  | exitStatus {actual : Status} (h : m.state = .exited actual) (hstatus : actual ≠ t.exitStatus) :
      Fails t m (.exitStatus t.exitStatus actual)
  | output {expected : Canvas} (h : m.state = .exited t.exitStatus)
      (houtput : t.output = some expected)
      (hcanvas : expected.width ≠ m.canvas.width ∨ expected.height ≠ m.canvas.height ∨
        expected.pixels ≠ m.canvas.pixels) :
      Fails t m .output

/-- The test finds nothing wrong with what a program of its own draws. -/
def Passes (t : UnitTest) (p : Program) (budget : Nat) : Prop :=
  ∀ failure, ¬ t.Fails (t.outcome p budget) failure

/-- Canvases of one size with the same pixels are equal. -/
theorem canvas_ne_iff {c c' : Canvas} :
    c ≠ c' ↔ c.width ≠ c'.width ∨ c.height ≠ c'.height ∨ c.pixels ≠ c'.pixels := by
  obtain ⟨width, height, pixels, _, _, _, _⟩ := c
  obtain ⟨width', height', pixels', _, _, _, _⟩ := c'
  simp only [ne_eq, Canvas.mk.injEq, not_and_or]

theorem verify_eq_some_iff {failure : TestFailure} :
    t.verify m = some failure ↔ t.Fails m failure := by
  constructor
  · intro h
    unfold verify at h
    split at h
    · next hnone =>
      obtain rfl : TestFailure.timedOut = failure := by simpa using h
      exact .timedOut (by simp [Machine.isExited, hnone])
    · next status hstatus =>
      rw [Machine.exitStatus?_eq_some] at hstatus
      split at h
      · next hne =>
        obtain rfl : TestFailure.exitStatus t.exitStatus status = failure := by simpa using h
        exact .exitStatus hstatus hne
      · next heq =>
        obtain rfl : status = t.exitStatus := by simpa using heq
        split at h
        · simp at h
        · next expected houtput =>
          split at h
          · simp at h
          · next hcanvas =>
            obtain rfl : TestFailure.output = failure := by simpa using h
            exact .output hstatus houtput (canvas_ne_iff.mp hcanvas)
  · intro h
    unfold verify
    cases h with
    | timedOut halive => rw [Machine.exitStatus?_eq_none halive]
    | exitStatus hstate hne => simp [Machine.exitStatus?_eq_some.mpr hstate, hne]
    | output hstate houtput hcanvas =>
      simp [Machine.exitStatus?_eq_some.mpr hstate, houtput, canvas_ne_iff.mpr hcanvas]

theorem passes_iff {p : Program} {budget : Nat} :
    t.Passes p budget ↔ t.verify (t.outcome p budget) = none := by
  rw [Option.eq_none_iff_forall_ne_some]
  simp only [Passes, ne_eq, verify_eq_some_iff]

/-- A run fails a test in one way. -/
theorem Fails.unique {failure failure' : TestFailure} (h : t.Fails m failure)
    (h' : t.Fails m failure') : failure = failure' :=
  Option.some.inj ((verify_eq_some_iff.mpr h).symm.trans (verify_eq_some_iff.mpr h'))

/-- A verdict depends on how the run ended and on what it drew. -/
theorem verify_congr (h : m.config = m'.config) (t : UnitTest) : t.verify m = t.verify m' := by
  have hcanvas : m.canvas = m'.canvas := congrArg Config.canvas h
  rw [verify, verify, Machine.exitStatus?_congr h, hcanvas]

/-- A test is out of time when no number of instructions up to the limit leads
to an exit: neither 0, for a program that ends at once, nor the limit itself. -/
theorem fails_timedOut_iff (t : UnitTest) (p : Program) (budget : Nat) :
    t.Fails (t.outcome p budget) .timedOut ↔ ∀ n ≤ budget, (t.outcome p n).isExited = false := by
  constructor
  · intro h n hn
    cases h with
    | timedOut halive =>
      obtain ⟨k, rfl⟩ := Nat.exists_eq_add_of_le hn
      rw [Bool.eq_false_iff]
      intro hexited
      have hlater := Machine.isExited_after_add hexited k
      exact Bool.false_ne_true (halive.symm.trans hlater)
  · intro h
    exact .timedOut (h budget (Nat.le_refl budget))

/-- A test in the middle of others is judged as it would be on its own. -/
theorem verify_runWithin (t : UnitTest) (m : Machine) (limits : Limits) :
    t.verify ((m.reset t.input).runWithin limits) =
      t.verify (t.outcome m.program limits.maxInstructions) := by
  apply verify_congr
  calc
    ((m.reset t.input).runWithin limits).config
        = ((m.reset t.input).runWithin limits).wake.config := (Machine.config_wake _).symm
    _ = ((m.reset t.input).after limits.maxInstructions).config := by
        rw [Machine.wake_runWithin (m.executed_reset t.input)]
    _ = ((Machine.start m.program t.input).after limits.maxInstructions).config :=
        m.config_after_reset t.input limits.maxInstructions

/-! ## Test after test -/

/-- The first of several tests that fails, counted from zero, and why. -/
abbrev FirstFailure (p : Program) (budget : Nat) (tests : List UnitTest) (index : Nat)
    (failure : TestFailure) : Prop :=
  FirstAt (fun (t : UnitTest) failure => t.Fails (t.outcome p budget) failure) tests index failure

theorem program_runWithin (limits : Limits) (m : Machine) :
    (m.runWithin limits).program = m.program := by
  rw [← Machine.program_wake, (Machine.frames_runWithin limits m).wake_eq, Machine.program_after]

/-- Running the tests stops at the first that fails. -/
theorem runAll_eq_error_iff (limits : Limits) (tests : List UnitTest) :
    ∀ (m : Machine) (start number : Nat) (failure : TestFailure),
      runAll limits start m tests = .error (number, failure) ↔
        ∃ index, number = start + index ∧
          FirstFailure m.program limits.maxInstructions tests index failure := by
  induction tests with
  | nil =>
    intro m start number failure
    simp [runAll, not_firstAt_nil]
  | cons t rest ih =>
    intro m start number failure
    have hprogram : ((m.reset t.input).runWithin limits).program = m.program := by
      rw [program_runWithin, Machine.program_reset]
    rw [runAll, verify_runWithin]
    cases hverify : t.verify (t.outcome m.program limits.maxInstructions) with
    | some found =>
      have hfails := verify_eq_some_iff.mp hverify
      refine Iff.trans ?_ (Iff.symm (exists_firstAt_cons_of_holds hfails fun _ => hfails.unique))
      simp [eq_comm]
    | none =>
      dsimp only
      rw [ih, hprogram]
      exact Iff.symm (exists_firstAt_cons (passes_iff.mpr hverify))

/-- What running the tests leaves behind does not depend on the frames. -/
theorem runAll_frame (limits : Limits) (frame : Nat) (tests : List UnitTest) :
    ∀ (m m' : Machine) (start : Nat), m.program = m'.program → m.coverage = m'.coverage →
      (runAll { limits with frame := frame } start m tests).map
          (fun m => (m.program, m.coverage)) =
        (runAll limits start m' tests).map (fun m => (m.program, m.coverage)) := by
  induction tests with
  | nil =>
    intro m m' start hprogram hcoverage
    simp [runAll, Except.map, hprogram, hcoverage]
  | cons t rest ih =>
    intro m m' start hprogram hcoverage
    have hreset := Machine.reset_congr hprogram hcoverage t.input
    have hwake : ((m'.reset t.input).runWithin { limits with frame := frame }).wake =
        ((m'.reset t.input).runWithin limits).wake := by
      rw [Machine.wake_runWithin (m'.executed_reset t.input),
        Machine.wake_runWithin (m'.executed_reset t.input)]
    rw [runAll, runAll, verify_runWithin, verify_runWithin, hprogram, hreset]
    dsimp only
    cases t.verify (t.outcome m'.program limits.maxInstructions) with
    | some found => rfl
    | none =>
      refine ih _ _ (start + 1) ?_ ?_
      · rw [← Machine.program_wake, hwake, Machine.program_wake]
      · rw [← Machine.coverage_wake, hwake, Machine.coverage_wake]

end UnitTest

/-! ## The report -/

/-- The report on a program, from the test that failed or from the program and
its coverage. -/
def reportOf (count : Nat) (target : Option Nat) :
    Except (Nat × TestFailure) (Program × Coverage) → GradeReport
  | .error (test, failure) => .failed test failure
  | .ok (p, coverage) =>
      .passed (coverage.percentage p.code.kinds) count (target.map (Score.of count))

theorem grade_cons (p : Program) (first : UnitTest) (rest : List UnitTest) (target : Option Nat)
    (limits : Limits) :
    grade p (first :: rest) target limits =
      reportOf p.count target
        ((UnitTest.runAll limits 0 (.start p first.input) (first :: rest)).map
          (fun m => (m.program, m.coverage))) := by
  unfold grade
  dsimp only
  cases UnitTest.runAll limits 0 (.start p first.input) (first :: rest) with
  | error found => rfl
  | ok m => rfl

theorem reportOf_eq_failed_iff {count : Nat} {target : Option Nat}
    {r : Except (Nat × TestFailure) (Program × Coverage)} {index : Nat} {failure : TestFailure} :
    reportOf count target r = .failed index failure ↔ r = .error (index, failure) := by
  rcases r with ⟨test, found⟩ | ⟨p, coverage⟩ <;> simp [reportOf]

theorem grade_eq_failed_iff (p : Program) (tests : List UnitTest) (target : Option Nat)
    (limits : Limits) (index : Nat) (failure : TestFailure) :
    grade p tests target limits = .failed index failure ↔
      UnitTest.FirstFailure p limits.maxInstructions tests index failure := by
  cases tests with
  | nil =>
    unfold grade
    simp [not_firstAt_nil]
  | cons first rest =>
    have hrun := UnitTest.runAll_eq_error_iff limits (first :: rest) (.start p first.input) 0 index
      failure
    simp only [Nat.zero_add, exists_eq_left', Machine.program_start] at hrun
    rw [grade_cons, reportOf_eq_failed_iff, ← hrun]
    cases UnitTest.runAll limits 0 (.start p first.input) (first :: rest) <;> simp [Except.map]

theorem grade_cases (p : Program) (tests : List UnitTest) (target : Option Nat) (limits : Limits) :
    (∃ index failure, grade p tests target limits = .failed index failure) ∨
      ∃ coverage, grade p tests target limits =
        .passed coverage p.count (target.map (Score.of p.count)) := by
  cases tests with
  | nil => exact .inr ⟨0, rfl⟩
  | cons first rest =>
    rw [grade_cons]
    cases UnitTest.runAll limits 0 (.start p first.input) (first :: rest) with
    | error found => exact .inl ⟨_, _, rfl⟩
    | ok m => exact .inr ⟨_, rfl⟩

theorem grade_frame (p : Program) (tests : List UnitTest) (target : Option Nat) (limits : Limits)
    (frame : Nat) :
    grade p tests target { limits with frame := frame } = grade p tests target limits := by
  cases tests with
  | nil => rfl
  | cons first rest =>
    rw [grade_cons, grade_cons, UnitTest.runAll_frame limits frame _ _ _ 0 rfl rfl]

/-- Grading tells the first test whose own run, given the whole limit at once,
fails, and why; and passes the program otherwise, with a score if there is a
solution to compare with. A test is out of time when it exits on none of its
instructions up to the limit. The size of the frames does not matter, and the
loop over them ends. -/
theorem grade_spec (p : Program) (tests : List UnitTest) (target : Option Nat) (limits : Limits) :
    (∀ index failure, grade p tests target limits = .failed index failure ↔
        UnitTest.FirstFailure p limits.maxInstructions tests index failure) ∧
      (∀ t : UnitTest, t.Fails (t.outcome p limits.maxInstructions) .timedOut ↔
        ∀ n ≤ limits.maxInstructions, (t.outcome p n).isExited = false) ∧
      ((∀ t ∈ tests, t.Passes p limits.maxInstructions) →
        ∃ coverage, grade p tests target limits =
          .passed coverage p.count (target.map (Score.of p.count))) ∧
      (∀ frame, grade p tests target { limits with frame := frame } =
        grade p tests target limits) ∧
      ∀ m : Machine, m.Frames limits (m.runWithin limits) := by
  refine ⟨grade_eq_failed_iff p tests target limits,
    fun t => t.fails_timedOut_iff p limits.maxInstructions, fun hpasses => ?_,
    grade_frame p tests target limits, Machine.frames_runWithin limits⟩
  refine (grade_cases p tests target limits).resolve_left ?_
  rintro ⟨index, failure, hfailed⟩
  obtain ⟨⟨t, ht, hfails⟩, -⟩ :=
    (grade_eq_failed_iff p tests target limits index failure).mp hfailed
  exact hpasses t (List.mem_of_getElem? ht) failure hfails

/-- An exit with the last instruction of the limit passes, in frames of no
size at all, and one instruction less is out of time. -/
theorem grade_spec_last_instruction :
    ∃ p canvas, Program.compile ⟨.palette, true, none⟩ "right\nright exit 3" = .ok p ∧
      Canvas.blank 3 1 = .ok canvas ∧
      (∃ coverage, grade p [⟨canvas, none, 3⟩, ⟨canvas, some canvas, 3⟩] (some 1) ⟨2, 0⟩ =
        .passed coverage p.count (some (Score.of p.count 1))) ∧
      grade p [⟨canvas, some canvas, 3⟩] none ⟨1, 5⟩ = .failed 0 .timedOut := by
  obtain ⟨p, canvas, hp, hcanvas, hfirst, hsecond, halive⟩ : ∃ p canvas,
      Program.compile ⟨.palette, true, none⟩ "right\nright exit 3" = .ok p ∧
      Canvas.blank 3 1 = .ok canvas ∧
      UnitTest.verify ⟨canvas, none, 3⟩ (UnitTest.outcome ⟨canvas, none, 3⟩ p 2) = none ∧
      UnitTest.verify ⟨canvas, some canvas, 3⟩ (UnitTest.outcome ⟨canvas, some canvas, 3⟩ p 2) =
        none ∧
      (UnitTest.outcome ⟨canvas, some canvas, 3⟩ p 1).isExited = false :=
    ⟨_, _, rfl, rfl, rfl, rfl, rfl⟩
  refine ⟨p, canvas, hp, hcanvas, (grade_spec p _ (some 1) ⟨2, 0⟩).2.2.1 ?_,
    ((grade_spec p _ none ⟨1, 5⟩).1 0 .timedOut).mpr ⟨⟨_, rfl, .timedOut halive⟩, by simp⟩⟩
  intro t ht
  rcases List.mem_pair.mp ht with rfl | rfl
  · exact UnitTest.passes_iff.mpr hfirst
  · exact UnitTest.passes_iff.mpr hsecond

end PixelTurtle
