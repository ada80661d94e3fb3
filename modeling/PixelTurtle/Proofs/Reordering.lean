/-
PixelTurtle.Proofs.Reordering — a passing report does not depend on the order
of the tests.

All tests share one machine, which is reset in between and keeps its coverage.
`Machine.isCovered_after_reset` says that a run after a reset covers what a
machine of its own would, on top of what was covered before. So running the
tests in place adds up to merging the coverages of one machine for each test
(`UnitTest.runAll_of_passes`), and a bit of those is set when any of the tests
sets it, in whatever order and however often they are run.
-/
import PixelTurtle.Proofs.Covering
import PixelTurtle.Proofs.Grading

namespace PixelTurtle

/-! ## A run after a reset -/

namespace Machine

variable {m m' : Machine} {line : Nat} {slot : Slot}

/-- The configuration tells what is about to be executed. -/
theorem isAt_congr (h : m.config = m'.config) (halive : m.isExited = false) :
    m.IsAt line slot ↔ m'.IsAt line slot := by
  have hpixel : m.pixel = m'.pixel := congrArg Config.pixel h
  rw [IsAt, IsAt, line_congr h halive, hpixel]

/-- Two machines in one configuration cover the same in a run. -/
theorem exists_isAt_congr (h : ∀ i, (m.after i).config = (m'.after i).config) (n : Nat) :
    (∃ i < n, (m.after i).isExited = false ∧ (m.after i).IsAt line slot) ↔
      ∃ i < n, (m'.after i).isExited = false ∧ (m'.after i).IsAt line slot := by
  refine exists_congr fun i => and_congr_right fun _ => ?_
  have hexited : (m.after i).isExited = (m'.after i).isExited := by
    rw [← isExited_config, h i, isExited_config]
  rw [← hexited]
  exact and_congr_right fun halive => isAt_congr (h i) halive

/-- What a run after a reset covers is what a machine of its own covers, and
what was covered before. -/
theorem isCovered_after_reset (hsound : m.program.code.Sound) (hpos : 0 < m.program.size)
    (hsized : m.coverage.Sized m.program.size) (canvas : Canvas) (n : Nat) :
    ((m.reset canvas).after n).coverage.isCovered line slot = true ↔
      m.coverage.isCovered line slot = true ∨
        ((start m.program canvas).after n).coverage.isCovered line slot = true := by
  have hreset := inBounds_reset hsound hpos hsized.white hsized.color canvas
  have hstart := inBounds_start hsound hpos canvas
  rw [isCovered_after (by rwa [program_reset]) hreset, coverage_reset,
    isCovered_after (by rwa [program_start]) hstart, coverage_start,
    exists_isAt_congr (m.config_after_reset canvas) n]
  simp

/-- A run keeps a bit for every line and slot. -/
theorem sized_after_reset (hsound : m.program.code.Sound) (hpos : 0 < m.program.size)
    (hsized : m.coverage.Sized m.program.size) (canvas : Canvas) (n : Nat) :
    ((m.reset canvas).after n).coverage.Sized m.program.size := by
  have hreset := inBounds_reset hsound hpos hsized.white hsized.color canvas
  have hafter := hreset.after (by rwa [program_reset]) n
  have hprogram : ((m.reset canvas).after n).program = m.program := by
    rw [program_after, program_reset]
  exact ⟨hprogram ▸ hafter.size_white, hprogram ▸ hafter.size_color⟩

end Machine

/-! ## All tests -/

namespace UnitTest

/-- The coverages of one machine for each test, merged. -/
def mergedCoverage (p : Program) (budget : Nat) (tests : List UnitTest) : Coverage :=
  .mergeAll p.size (tests.map fun t => (t.outcome p budget).coverage)

theorem isCovered_mergedCoverage {p : Program} (hsound : p.code.Sound) (hpos : 0 < p.size)
    (budget : Nat) (tests : List UnitTest) (line : Nat) (slot : Slot) :
    (mergedCoverage p budget tests).isCovered line slot = true ↔
      ∃ t ∈ tests, (t.outcome p budget).coverage.isCovered line slot = true := by
  have hsized : ∀ c ∈ tests.map fun t => (t.outcome p budget).coverage, c.Sized p.size := by
    intro c hc
    obtain ⟨t, -, rfl⟩ := List.mem_map.mp hc
    exact Machine.sized_after_reset (m := ⟨p, t.input, 0, .origin, .idle, 0, .none p.size⟩) hsound
      hpos (Coverage.sized_none p.size) t.input budget
  rw [mergedCoverage, Coverage.isCovered_mergeAll hsized]
  simp

/-- Tests that were all run through had nothing to complain about. -/
theorem passes_of_runAll (limits : Limits) (tests : List UnitTest) :
    ∀ (m m' : Machine) (start : Nat), runAll limits start m tests = .ok m' →
      ∀ t ∈ tests, t.Passes m.program limits.maxInstructions := by
  induction tests with
  | nil => simp
  | cons first rest ih =>
    intro m m' start h t ht
    rw [runAll, verify_runWithin] at h
    cases hverify : first.verify (first.outcome m.program limits.maxInstructions) with
    | some failure => simp [hverify] at h
    | none =>
      simp only [hverify] at h
      rcases List.mem_cons.mp ht with rfl | ht
      · exact passes_iff.mpr hverify
      · have hpasses := ih _ m' (start + 1) h t ht
        rwa [program_runWithin, Machine.program_reset] at hpasses

/-- Tests that pass are all run, and the machine has covered at the end what it
had before and what each of them covers by itself. -/
theorem runAll_of_passes (limits : Limits) (tests : List UnitTest) :
    ∀ (m : Machine) (start : Nat), m.program.code.Sound → 0 < m.program.size →
      m.coverage.Sized m.program.size →
      (∀ t ∈ tests, t.Passes m.program limits.maxInstructions) →
      ∃ m', runAll limits start m tests = .ok m' ∧ m'.program = m.program ∧
        ∀ line slot, m'.coverage.isCovered line slot = true ↔
          m.coverage.isCovered line slot = true ∨ ∃ t ∈ tests,
            (t.outcome m.program limits.maxInstructions).coverage.isCovered line slot = true := by
  induction tests with
  | nil =>
    intro m start _ _ _ _
    exact ⟨m, rfl, rfl, by simp⟩
  | cons first rest ih =>
    intro m start hsound hpos hsized hpasses
    have hverify := passes_iff.mp (hpasses first List.mem_cons_self)
    rw [← verify_runWithin] at hverify
    have hprogram : ((m.reset first.input).runWithin limits).program = m.program := by
      rw [program_runWithin, Machine.program_reset]
    have hcoverage : ((m.reset first.input).runWithin limits).coverage =
        ((m.reset first.input).after limits.maxInstructions).coverage := by
      rw [← Machine.wake_runWithin (m.executed_reset first.input), Machine.coverage_wake]
    have hcovered : ∀ line slot,
        ((m.reset first.input).runWithin limits).coverage.isCovered line slot = true ↔
          m.coverage.isCovered line slot = true ∨
            (first.outcome m.program limits.maxInstructions).coverage.isCovered line slot =
              true := by
      intro line slot
      rw [hcoverage]
      exact Machine.isCovered_after_reset hsound hpos hsized first.input limits.maxInstructions
    obtain ⟨m', hrun, hsame, hiff⟩ := ih ((m.reset first.input).runWithin limits) (start + 1)
      (hprogram ▸ hsound) (hprogram ▸ hpos)
      (by rw [hcoverage, hprogram]; exact Machine.sized_after_reset hsound hpos hsized _ _)
      (by rw [hprogram]; exact fun t ht => hpasses t (List.mem_cons_of_mem _ ht))
    rw [hprogram] at hsame hiff
    refine ⟨m', ?_, hsame, fun line slot => ?_⟩
    · simp only [runAll, hverify]
      exact hrun
    · rw [hiff, hcovered, or_assoc, List.exists_mem_cons_iff]

end UnitTest

/-! ## The report -/

section

variable {p : Program} {tests tests' : List UnitTest} {target : Option Nat} {limits : Limits}

theorem passes_of_grade {coverage count : Nat} {score : Option Score}
    (h : grade p tests target limits = .passed coverage count score) :
    ∀ t ∈ tests, t.Passes p limits.maxInstructions := by
  cases tests with
  | nil => simp
  | cons first rest =>
    rw [grade_cons] at h
    cases hrun : UnitTest.runAll limits 0 (.start p first.input) (first :: rest) with
    | error found => simp [hrun, Except.map, reportOf] at h
    | ok m =>
      have hpasses := UnitTest.passes_of_runAll limits _ _ m 0 hrun
      rwa [Machine.program_start] at hpasses

/-- The report on a program that passes all its tests. -/
theorem grade_of_passes (hsound : p.code.Sound) (hpos : 0 < p.size) (hne : tests ≠ [])
    (hpasses : ∀ t ∈ tests, t.Passes p limits.maxInstructions) :
    grade p tests target limits =
      .passed ((UnitTest.mergedCoverage p limits.maxInstructions tests).percentage p.code.kinds)
        p.count (target.map (Score.of p.count)) := by
  obtain ⟨first, rest, rfl⟩ := List.exists_cons_of_ne_nil hne
  have hstart := Machine.program_start p first.input
  have hcoverage := Machine.coverage_start p first.input
  obtain ⟨m, hrun, hprogram, hcovered⟩ := UnitTest.runAll_of_passes limits
    (first :: rest) (.start p first.input) 0 (hstart.symm ▸ hsound) (hstart.symm ▸ hpos)
    (by rw [hcoverage, hstart]; exact Coverage.sized_none p.size) (by rwa [hstart])
  rw [hstart] at hprogram hcovered
  rw [grade_cons, hrun, ← hprogram]
  have hbits : ∀ line slot, m.coverage.isCovered line slot =
      (UnitTest.mergedCoverage p limits.maxInstructions (first :: rest)).isCovered line slot := by
    intro line slot
    rw [Bool.eq_iff_iff, hcovered, hcoverage, UnitTest.isCovered_mergedCoverage hsound hpos]
    simp
  simp only [Except.map, reportOf, hprogram, Coverage.percentage_congr hbits]

/-- A program that passes some tests passes them in every order and however
often they are repeated, with the same report. The coverage in it is that of
one machine for each test, merged. -/
theorem grade_reordered {options : CompileOptions} {source : String}
    (hp : Program.compile options source = .ok p) (hne : tests ≠ []) {coverage count : Nat}
    {score : Option Score} (h : grade p tests target limits = .passed coverage count score) :
    (∀ tests', (∀ t, t ∈ tests' ↔ t ∈ tests) →
        grade p tests' target limits = .passed coverage count score) ∧
      coverage =
        (UnitTest.mergedCoverage p limits.maxInstructions tests).percentage p.code.kinds := by
  have hsound := Program.sound_of_compile hp
  have hpos := Program.size_pos_of_compile hp
  have hpasses := passes_of_grade h
  rw [grade_of_passes hsound hpos hne hpasses] at h
  obtain ⟨rfl, rfl, rfl⟩ := GradeReport.passed.inj h
  refine ⟨fun tests' hmem => ?_, rfl⟩
  have hne' : tests' ≠ [] := by
    obtain ⟨t, ht⟩ := List.exists_mem_of_ne_nil tests hne
    exact List.ne_nil_of_mem ((hmem t).mpr ht)
  rw [grade_of_passes hsound hpos hne' fun t ht => hpasses t ((hmem t).mp ht)]
  congr 1
  refine Coverage.percentage_congr (fun line slot => ?_) _
  rw [Bool.eq_iff_iff, UnitTest.isCovered_mergedCoverage hsound hpos,
    UnitTest.isCovered_mergedCoverage hsound hpos]
  simp only [hmem]

/-- Two tests that each run one half of a line, the second of them repeated and
put first. -/
theorem grade_reordered_two_tests :
    ∃ p bright dark,
      Program.compile ⟨.palette, true, none⟩ "if white exit 1 else write white exit 2" = .ok p ∧
      Canvas.ofPixels 1 1 #[.white] = .ok bright ∧ Canvas.ofPixels 1 1 #[.red] = .ok dark ∧
      grade p [⟨bright, none, 1⟩, ⟨dark, some bright, 2⟩] none ⟨1, 0⟩ = .passed 100 1 none ∧
      grade p [⟨dark, some bright, 2⟩, ⟨bright, none, 1⟩, ⟨dark, some bright, 2⟩] none ⟨1, 0⟩ =
        .passed 100 1 none := by
  obtain ⟨p, bright, dark, hp, hbright, hdark, hgrade⟩ : ∃ p bright dark,
      Program.compile ⟨.palette, true, none⟩ "if white exit 1 else write white exit 2" = .ok p ∧
      Canvas.ofPixels 1 1 #[.white] = .ok bright ∧ Canvas.ofPixels 1 1 #[.red] = .ok dark ∧
      grade p [⟨bright, none, 1⟩, ⟨dark, some bright, 2⟩] none ⟨1, 0⟩ = .passed 100 1 none :=
    ⟨_, _, _, rfl, rfl, rfl, rfl⟩
  refine ⟨p, bright, dark, hp, hbright, hdark, hgrade, ?_⟩
  exact (grade_reordered hp (by simp) hgrade).1 _ (by simp [or_comm])

end

end PixelTurtle
