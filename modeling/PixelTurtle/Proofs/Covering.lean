/-
PixelTurtle.Proofs.Covering — coverage records exactly what ran.

A bit of the coverage is set in the middle of an instruction, before it paints
and before any of the ways in which a step can end. What it stands for is a
fact about everything that was ever done with the machine:

* `Machine.IsAt` — the machine is about to execute a line under a pixel that
  selects a slot.
* `Machine.isCovered_tick`, `Machine.isCovered_after` — what one instruction
  and what a run add to the coverage.
* `Machine.Ran` — since the coverage was last cleared, some step executed that
  line under such a pixel.
* `Program.isCovered_iff_ran` — a bit is set exactly when it `Ran`.
-/
import PixelTurtle.Proofs.Bounds
import PixelTurtle.Proofs.Merging

namespace PixelTurtle

/-- A white pixel selects the white slot, and any other pixel the color slot. -/
theorem Slot.of_eq_iff (c : Color) (slot : Slot) : of c = slot ↔ (c = .white ↔ slot = .white) := by
  cases c <;> cases slot <;> simp [of, Color.isWhite]

/-! ## One instruction, and a run -/

namespace Machine

variable {m : Machine} {line : Nat} {slot : Slot}

/-- The machine is about to execute this line, while the pixel under the
cursor is white for the white slot and not white for the color slot. -/
def IsAt (m : Machine) (line : Nat) (slot : Slot) : Prop :=
  m.line = line ∧ (m.pixel = .white ↔ slot = .white)

theorem coverage_tick (m : Machine) :
    m.tick.coverage = m.coverage.cover m.line (Slot.of m.pixel) := by
  rw [tick_eq]
  split <;> rfl

/-- An instruction sets the bit of the action it is about to execute. -/
theorem isCovered_tick (h : m.InBounds) :
    m.tick.coverage.isCovered line slot = true ↔
      m.IsAt line slot ∨ m.coverage.isCovered line slot = true := by
  rw [coverage_tick, Coverage.isCovered_cover (h.size_white ▸ h.line_lt) (h.size_color ▸ h.line_lt),
    Slot.of_eq_iff, IsAt]

/-- A run adds the bits of the actions that it executes. -/
theorem isCovered_after (hsound : m.program.code.Sound) (h : m.InBounds) (n : Nat) :
    (m.after n).coverage.isCovered line slot = true ↔
      m.coverage.isCovered line slot = true ∨
        ∃ i < n, (m.after i).isExited = false ∧ (m.after i).IsAt line slot := by
  induction n with
  | zero => simp [after_zero, coverage_wake]
  | succ n ih =>
    simp only [Nat.lt_succ_iff_lt_or_eq, or_and_right, exists_or, exists_eq_left]
    rw [after_succ, ← or_assoc, ← ih, advance]
    cases halive : (m.after n).isExited with
    | true => simp
    | false =>
      simp only [Bool.false_eq_true, if_false, true_and]
      rw [isCovered_tick (h.after hsound n), or_comm]

/-- A step executes the instructions that it reports. -/
theorem isCovered_step (hsound : m.program.code.Sound) (h : m.InBounds) (budget : Nat)
    (breakpoints : List Nat) :
    (m.step budget breakpoints).1.coverage.isCovered line slot = true ↔
      m.coverage.isCovered line slot = true ∨
        ∃ i < (m.step budget breakpoints).2.executed, (m.after i).IsAt line slot := by
  rw [step_eq_after, isCovered_after hsound h]
  refine or_congr_right (exists_congr fun i => and_congr_right fun hi => ?_)
  simp [isExited_of_lt_executed hi]

theorem coverage_reset (m : Machine) (canvas : Canvas) :
    (m.reset canvas).coverage = m.coverage := by
  unfold reset
  split <;> rfl

theorem coverage_start (p : Program) (canvas : Canvas) :
    (start p canvas).coverage = .none p.size :=
  coverage_reset _ canvas

/-! ## Whatever is done with a machine -/

/-- Among these operations is a step that executed this line under a pixel of
this slot, and the coverage was not cleared after it. The instruction of number
`i` of a step is executed by the machine that `i` instructions lead to. -/
def Ran (m : Machine) (operations : List Operation) (line : Nat) (slot : Slot) : Prop :=
  ∃ earlier budget breakpoints later,
    operations = earlier ++ .step budget breakpoints :: later ∧ .clearCoverage ∉ later ∧
      ∃ i < ((m.perform earlier).step budget breakpoints).2.executed,
        ((m.perform earlier).after i).IsAt line slot

theorem not_ran_nil : ¬ m.Ran [] line slot := by
  rintro ⟨earlier, budget, breakpoints, later, heq, -⟩
  simp at heq

/-- The step is the first of the operations, or one of the rest. -/
theorem ran_cons (o : Operation) (rest : List Operation) :
    m.Ran (o :: rest) line slot ↔
      (∃ budget breakpoints, o = .step budget breakpoints ∧ .clearCoverage ∉ rest ∧
        ∃ i < (m.step budget breakpoints).2.executed, (m.after i).IsAt line slot) ∨
      (m.apply o).Ran rest line slot := by
  constructor
  · rintro ⟨earlier, budget, breakpoints, later, heq, hclear, hran⟩
    cases earlier with
    | nil =>
      obtain ⟨rfl, rfl⟩ := List.cons.inj heq
      exact .inl ⟨budget, breakpoints, rfl, hclear, hran⟩
    | cons first others =>
      obtain ⟨rfl, rfl⟩ := List.cons.inj heq
      exact .inr ⟨others, budget, breakpoints, later, rfl, hclear, hran⟩
  · rintro (⟨budget, breakpoints, rfl, hclear, hran⟩ |
      ⟨earlier, budget, breakpoints, later, rfl, hclear, hran⟩)
    · exact ⟨[], budget, breakpoints, rest, rfl, hclear, hran⟩
    · exact ⟨o :: earlier, budget, breakpoints, later, rfl, hclear, hran⟩

/-- A bit that is set was set by an instruction, or it was set before and never
cleared. -/
theorem isCovered_perform (hsound : m.program.code.Sound) (h : m.InBounds)
    (operations : List Operation) :
    (m.perform operations).coverage.isCovered line slot = true ↔
      (.clearCoverage ∉ operations ∧ m.coverage.isCovered line slot = true) ∨
        m.Ran operations line slot := by
  induction operations generalizing m with
  | nil => simp [perform, not_ran_nil]
  | cons o rest ih =>
    have hrest := ih (m := m.apply o) (by rwa [program_apply]) (h.apply hsound o)
    rw [ran_cons]
    refine hrest.trans ?_
    cases o with
    | reset canvas => simp [apply, coverage_reset]
    | step budget breakpoints =>
      simp only [apply, isCovered_step hsound h, and_or_left, List.mem_cons, reduceCtorEq, false_or,
        Operation.step.injEq, or_assoc]
      simp
    | clearCoverage => simp [apply, clearCoverage]

end Machine

namespace Program

/-- Whatever is done with a machine that was started with a compiled program, a
bit of its coverage is set exactly when, since the coverage was last cleared or
since the start, an instruction was executed on that line under a pixel of that
slot. -/
theorem isCovered_iff_ran {options : CompileOptions} {source : String} {p : Program}
    (h : compile options source = .ok p) (canvas : Canvas) (operations : List Machine.Operation)
    (line : Nat) (slot : Slot) :
    ((Machine.start p canvas).perform operations).coverage.isCovered line slot = true ↔
      (Machine.start p canvas).Ran operations line slot := by
  have hsound : (Machine.start p canvas).program.code.Sound := by
    rw [Machine.program_start]
    exact sound_of_compile h
  have hstart := Machine.inBounds_start (sound_of_compile h) (size_pos_of_compile h) canvas
  rw [Machine.isCovered_perform hsound hstart, Machine.coverage_start]
  simp

/-- The line is executed on a colored pixel before the coverage is cleared, and
on a white one on the way over the edge. -/
theorem isCovered_iff_ran_over_edge :
    ∃ p canvas,
      compile ⟨.palette, true, none⟩ "a: if white write red right goto a else write white goto a" =
        .ok p ∧
      Canvas.ofPixels 2 1 #[.blue, .white] = .ok canvas ∧
      (Machine.start p canvas).Ran [.step 1 [], .step 9 [7], .reset canvas] 0 .white ∧
      (Machine.start p canvas).Ran [.step 1 [], .reset canvas] 0 .color ∧
      ¬ (Machine.start p canvas).Ran [.step 1 [], .clearCoverage] 0 .color := by
  obtain ⟨p, canvas, hp, hcanvas, hedge, hcolor⟩ : ∃ p canvas,
      compile ⟨.palette, true, none⟩ "a: if white write red right goto a else write white goto a" =
        .ok p ∧
      Canvas.ofPixels 2 1 #[.blue, .white] = .ok canvas ∧
      ((Machine.start p canvas).perform
        [.step 1 [], .step 9 [7], .reset canvas]).coverage.isCovered 0 .white = true ∧
      ((Machine.start p canvas).perform
        [.step 1 [], .reset canvas]).coverage.isCovered 0 .color = true :=
    ⟨_, _, rfl, rfl, rfl, rfl⟩
  refine ⟨p, canvas, hp, hcanvas, (isCovered_iff_ran hp canvas _ 0 .white).mp hedge,
    (isCovered_iff_ran hp canvas _ 0 .color).mp hcolor, ?_⟩
  rw [← isCovered_iff_ran hp]
  simp [Machine.perform, Machine.apply, Machine.clearCoverage]

end Program

end PixelTurtle
