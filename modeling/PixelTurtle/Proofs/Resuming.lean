/-
PixelTurtle.Proofs.Resuming — what `continue` says it executed.

A step reports all that it executed. A `continue` is made of steps of one frame
each and keeps the report of the last one only:

* `Machine.executed_step` — the number in the report of a step is what the step
  adds to the counter of the machine.
* `DebugSession.lastFrame` — what is left of a number of instructions for the last
  frame, of full frames and one that is not empty.
* `DebugSession.resume_reports_lastFrame` — the number that `continue` shows is
  the last frame of what it executed, and so all of it just when one frame did.
* `DebugSession.resume_counts_short` — a run of more than one frame, in which all
  but 489 of 100489 instructions go unmentioned. The program paces a row of pixels
  and takes as many instructions as the square of its width
  (`Config.Pacing.iterate`).
-/
import PixelTurtle.Proofs.Grading
import PixelTurtle.Proofs.Replay

namespace PixelTurtle

/-! ## What a step executes -/

namespace Machine

variable {m : Machine} {budget : Nat} {breakpoints : List Nat}

/-- Instructions of a run that has not ended are counted one by one. -/
theorem executed_after_of_forall {n : Nat} (h : ∀ i < n, (m.after i).isExited = false) :
    (m.after n).executed = m.executed + n := by
  cases n with
  | zero => rw [after_zero, executed_wake, Nat.add_zero]
  | succ n =>
    have halive := h n (Nat.lt_succ_self n)
    rw [after_succ, executed_advance halive, executed_after_of_alive halive, Nat.add_assoc]

/-- What a step reports is what it adds to the counter. -/
theorem executed_step (m : Machine) (budget : Nat) (breakpoints : List Nat) :
    (m.step budget breakpoints).1.executed =
      m.executed + (m.step budget breakpoints).2.executed := by
  rw [step_eq_after]
  exact executed_after_of_forall fun _ hi => isExited_of_lt_executed hi

/-- A step reports an exit just when the run has ended after it. -/
theorem isExited_step (m : Machine) (budget : Nat) (breakpoints : List Nat) :
    (m.step budget breakpoints).1.isExited = (m.step budget breakpoints).2.exit.isSome := by
  have hexit := (m.step_reports budget breakpoints).exit_iff
  rw [Bool.eq_iff_iff, Option.isSome_iff_exists]
  constructor
  · intro h
    obtain ⟨status, hstate⟩ := state_of_isExited h
    exact ⟨status, (hexit status).mpr hstate⟩
  · rintro ⟨status, hstatus⟩
    exact isExited_of_state ((hexit status).mp hstatus)

/-- A step of a run that has not ended executes something. -/
theorem executed_step_pos (h : m.isExited = false) (hbudget : 0 < budget) :
    0 < (m.step budget breakpoints).2.executed := by
  have hreports := m.step_reports budget breakpoints
  refine Nat.pos_of_ne_zero fun hzero => ?_
  rcases hreports.stops (hzero ▸ hbudget) with hexit | hbreakpoint
  · rw [← isExited_step, step_eq_after, hzero, after_zero, isExited_wake, h] at hexit
    exact Bool.false_ne_true hexit
  · have hpos := (hreports.breakpoint_iff.mp hbreakpoint).1
    omega

/-- A step that does not stop by itself uses up its budget, in a run that goes
on. -/
theorem step_of_not_stopped (h : (m.step budget breakpoints).2.stopped = false) :
    (m.step budget breakpoints).2.executed = budget ∧
      (m.step budget breakpoints).1.isExited = false := by
  have hreports := m.step_reports budget breakpoints
  rw [StepReport.stopped, Bool.or_eq_false_iff] at h
  refine ⟨Nat.le_antisymm hreports.executed_le (Nat.le_of_not_lt fun hlt => ?_), ?_⟩
  · rcases hreports.stops hlt with hexit | hbreakpoint
    · exact Bool.false_ne_true (h.1.symm.trans hexit)
    · exact Bool.false_ne_true (h.2.symm.trans hbreakpoint)
  · rw [isExited_step, h.1]

theorem breakpoint_step_nil (m : Machine) (budget : Nat) :
    (m.step budget []).2.breakpoint = false := by
  rw [Bool.eq_false_iff]
  intro h
  exact absurd ((m.step_reports budget []).breakpoint_iff.mp h).2.2 List.not_mem_nil

/-- Without breakpoints, a step does not stop by itself if there is no exit in its
budget. -/
theorem stopped_step_nil (h : (m.after budget).isExited = false) :
    (m.step budget []).2.stopped = false := by
  rw [StepReport.stopped, breakpoint_step_nil, Bool.or_false, ← isExited_step]
  exact h

/-- Without breakpoints, a step goes on to an exit in its budget. -/
theorem step_nil_of_exits {total : Nat} {status : Status}
    (halive : ∀ n < total, (m.after n).isExited = false)
    (hend : (m.after total).state = .exited status) (hbudget : total ≤ budget) :
    m.step budget [] = (m.after total, ⟨total, some status, false⟩) := by
  have hlast : (m.step budget []).1 = m.after total := by
    obtain ⟨k, rfl⟩ := Nat.exists_eq_add_of_le hbudget
    change m.after (total + k) = _
    rw [after_add, after_of_isExited (isExited_of_state hend)]
  have hexecuted := m.executed_step budget []
  rw [hlast, executed_after_of_forall halive] at hexecuted
  have hexit := ((m.step_reports budget []).exit_iff status).mpr (hlast ▸ hend)
  have hbreakpoint := m.breakpoint_step_nil budget
  generalize m.step budget [] = out at hlast hexecuted hexit hbreakpoint ⊢
  obtain ⟨m', executed, exit, breakpoint⟩ := out
  obtain rfl : executed = total := (Nat.add_left_cancel hexecuted).symm
  obtain rfl := hlast
  obtain rfl := hexit
  obtain rfl := hbreakpoint
  rfl

end Machine

namespace Terminal.DebugSession

/-! ## The last frame -/

/-- What is left for the last frame of a number of instructions: all of them but
the full frames that others come after. -/
def lastFrame (n : Nat) : Nat :=
  n - frame * ((n - 1) / frame)

theorem lastFrame_of_le {n : Nat} (h : n ≤ frame) : lastFrame n = n := by
  rw [frame] at h
  simp only [lastFrame, frame]
  omega

/-- A full frame is none but the last if there are instructions after it. -/
theorem lastFrame_add {n : Nat} (h : 0 < n) : lastFrame (frame + n) = lastFrame n := by
  simp only [lastFrame, frame]
  omega

/-- All of the instructions fall in the last frame just when one frame has room
for them. -/
theorem lastFrame_eq_iff (n : Nat) : lastFrame n = n ↔ n ≤ frame := by
  refine ⟨fun h => ?_, lastFrame_of_le⟩
  simp only [lastFrame, frame] at h ⊢
  omega

/-! ## Frame after frame -/

/-- What a `continue` that stops by itself did: it went `n` instructions on in a
run that had not ended, in frames of which it reports the last. -/
structure Resumes (breakpoints : List Nat) (m : Machine) (out : Machine × StepReport)
    (n : Nat) : Prop where
  machine_eq : out.1 = m.after n
  executed_eq : out.1.executed = m.executed + n
  reported : out.2.executed = lastFrame n
  last : ∃ m' : Machine, m'.Reports frame breakpoints out
  pos : m.isExited = false → 0 < n

/-- The only frame is reported as a whole. -/
theorem resumes_step (breakpoints : List Nat) (m : Machine) :
    Resumes breakpoints m (m.step frame breakpoints) (m.step frame breakpoints).2.executed where
  machine_eq := m.step_eq_after frame breakpoints
  executed_eq := m.executed_step frame breakpoints
  reported := (lastFrame_of_le (m.step_reports frame breakpoints).executed_le).symm
  last := ⟨m, m.step_reports frame breakpoints⟩
  pos halive := Machine.executed_step_pos halive (by decide)

/-- A full frame in front of others goes unreported. -/
theorem Resumes.frame_add {breakpoints : List Nat} {m : Machine} {out : Machine × StepReport}
    {n : Nat} (hfirst : (m.step frame breakpoints).2.stopped = false)
    (h : Resumes breakpoints (m.step frame breakpoints).1 out n) :
    Resumes breakpoints m out (frame + n) := by
  obtain ⟨hfull, halive⟩ := Machine.step_of_not_stopped hfirst
  refine ⟨?_, ?_, ?_, h.last, fun _ => Nat.add_pos_right _ (h.pos halive)⟩
  · rw [h.machine_eq, Machine.step_eq_after, hfull, Machine.after_add]
  · rw [h.executed_eq, Machine.executed_step, hfull, Nat.add_assoc]
  · rw [h.reported, lastFrame_add (h.pos halive)]

theorem exists_resumes (breakpoints : List Nat) :
    ∀ (frames : Nat) (m : Machine), (resumeMachine breakpoints frames m).2.stopped = true →
      ∃ n, Resumes breakpoints m (resumeMachine breakpoints frames m) n
  | 0, m, _ => ⟨_, resumes_step breakpoints m⟩
  | frames + 1, m, h => by
      cases hfirst : (m.step frame breakpoints).2.stopped with
      | true =>
        rw [resumeMachine_of_stopped hfirst]
        exact ⟨_, resumes_step breakpoints m⟩
      | false =>
        rw [resumeMachine_of_not_stopped hfirst] at h ⊢
        obtain ⟨n, hrest⟩ := exists_resumes breakpoints frames _ h
        exact ⟨frame + n, hrest.frame_add hfirst⟩

/-- A `continue` that stops at a breakpoint or an exit goes on by some number of
instructions, which is what it adds to the counter. The number it shows is that of
the last frame, and so that of all of them just when there are no more than a
frame has. -/
theorem resume_reports_lastFrame (frames : Nat) (s : DebugSession)
    (hstop : s.stopsItself frames .resume = true) :
    ∃ n r, (s.respond frames .resume).1 = { s with machine := s.machine.after n } ∧
      (s.respond frames .resume).1.machine.executed = s.machine.executed + n ∧
      (s.respond frames .resume).2 = report (s.respond frames .resume).1.machine r ∧
      r.executed = lastFrame n ∧ (r.executed = n ↔ n ≤ frame) := by
  obtain ⟨n, h⟩ := exists_resumes s.breakpoints frames s.machine hstop
  refine ⟨n, (resumeMachine s.breakpoints frames s.machine).2, ?_, h.executed_eq, rfl,
    h.reported, ?_⟩
  · rw [← h.machine_eq]
    rfl
  · rw [h.reported]
    exact lastFrame_eq_iff n

/-- Three instructions to a breakpoint, all of them in one frame. -/
theorem resume_reports_lastFrame_breakpoint :
    ∃ p canvas,
      Program.compile ⟨.palette, true, none⟩ "a: write red right\ngoto b\nb: up goto a" = .ok p ∧
      Canvas.blank 2 2 = .ok canvas ∧
      (start (.start p canvas) [2]).stopsItself 4 .resume = true ∧
      ∃ n r, ((start (.start p canvas) [2]).respond 4 .resume).1.machine.executed = n ∧
        ((start (.start p canvas) [2]).respond 4 .resume).2 =
          report ((start (.start p canvas) [2]).respond 4 .resume).1.machine r ∧
        r.executed = lastFrame n ∧ (r.executed = n ↔ n ≤ frame) := by
  obtain ⟨p, canvas, hp, hcanvas, hstop, hzero⟩ : ∃ p canvas,
      Program.compile ⟨.palette, true, none⟩ "a: write red right\ngoto b\nb: up goto a" = .ok p ∧
      Canvas.blank 2 2 = .ok canvas ∧
      (start (.start p canvas) [2]).stopsItself 4 .resume = true ∧
      (Machine.start p canvas).executed = 0 := ⟨_, _, rfl, rfl, rfl, rfl⟩
  obtain ⟨n, r, -, hexecuted, houtput, hr⟩ :=
    resume_reports_lastFrame 4 (start (.start p canvas) [2]) hstop
  refine ⟨p, canvas, hp, hcanvas, hstop, n, r, ?_, houtput, hr⟩
  rw [hexecuted]
  change (Machine.start p canvas).executed + n = n
  rw [hzero, Nat.zero_add]

end Terminal.DebugSession

/-! ## Pacing a row -/

namespace Canvas

variable {canvas : Canvas} {width dark : Nat}

/-- A row of pixels of which those from 1 to `dark` are colored. -/
structure Darkened (c : Canvas) (width dark : Nat) : Prop where
  width_eq : c.width = width
  height_eq : c.height = 1
  colored_iff : ∀ x < width, (c.pixelAt x).isWhite = false ↔ 0 < x ∧ x ≤ dark

/-- There is a blank row of every width that can be counted. -/
theorem exists_darkened_blank (hwidth : 0 < width) (hfits : width < UInt64.size) :
    ∃ canvas, blank width 1 = .ok canvas ∧ canvas.Darkened width 0 := by
  refine ⟨⟨width, 1, Array.replicate (width * 1) .white, hwidth, Nat.one_pos, by omega, by simp⟩,
    ?_, rfl, rfl, fun x _ => ?_⟩
  · have hempty : width ≠ 0 := Nat.ne_of_gt hwidth
    have hlarge : ¬ UInt64.size ≤ width := Nat.not_le_of_lt hfits
    simp [blank, filled, pixelCount, ofPixels, hempty, hlarge]
  · simp [pixelAt, Array.getD, Color.isWhite]
    omega

theorem Darkened.white_iff (h : canvas.Darkened width dark) {x : Nat} (hx : x < width) :
    (canvas.pixelAt x).isWhite = true ↔ x = 0 ∨ dark < x := by
  rw [← Bool.not_eq_false, h.colored_iff x hx]
  omega

/-- Blackening the first pixel beyond the colored ones. -/
theorem Darkened.put (h : canvas.Darkened width dark) (hroom : dark + 1 < width) :
    (canvas.put (dark + 1) .black).Darkened width (dark + 1) := by
  refine ⟨h.width_eq, h.height_eq, fun x hx => ?_⟩
  by_cases hsame : dark + 1 = x
  · subst hsame
    have hsize : dark + 1 < canvas.pixels.size := by
      rw [canvas.size_pixels, h.width_eq, h.height_eq]
      omega
    rw [pixelAt_put_self _ hsize]
    simp [Color.isWhite]
  · rw [pixelAt_put_of_ne _ hsame, h.colored_iff x hx]
    omega

end Canvas

/-- The program that paces a row: it goes back to the left end and forth over the
colored pixels, blackens the first pixel beyond them and turns. -/
def Code.pacing : Code :=
  #[⟨⟨none, .right, .jump 1⟩, ⟨none, .left, .jump 0⟩, .conditional⟩,
    ⟨⟨some .black, .left, .jump 0⟩, ⟨none, .right, .jump 1⟩, .conditional⟩]

namespace Config

variable {width n dark x : Nat} {canvas : Canvas} {c : Config}

/-- Where the pacing program stands after `n` instructions on a row of a given
width: on the way back, on the way forth, or off the right end. -/
inductive Pacing (width : Nat) : Nat → Config → Prop where
  | back {n dark x : Nat} {canvas : Canvas} (hcanvas : canvas.Darkened width dark)
      (hdark : dark < width) (hx : x ≤ dark) (hn : n + x = dark * (dark + 1)) :
      Pacing width n ⟨canvas, ⟨x, 0⟩, .jump 0⟩
  | forth {n dark x : Nat} {canvas : Canvas} (hcanvas : canvas.Darkened width dark)
      (hdark : dark < width) (hpos : 0 < x) (hx : x ≤ dark + 1) (hwidth : x < width)
      (hn : n = dark * (dark + 1) + x) :
      Pacing width n ⟨canvas, ⟨x, 0⟩, .jump 1⟩
  | off {n : Nat} {canvas : Canvas} {cursor : Cursor} (hn : n = width * width) :
      Pacing width n ⟨canvas, cursor, .exit edgeStatus⟩

theorem next_row (code : Code) (canvas : Canvas) (x line : Nat) :
    (⟨canvas, ⟨x, 0⟩, .jump line⟩ : Config).next code =
      perform ⟨canvas, ⟨x, 0⟩, .jump line⟩ (code.action line (Slot.of (canvas.pixelAt x))) := by
  simp [next, pixel, offset, Canvas.offset]

/-- A move to the right along a row. -/
theorem perform_right (canvas : Canvas) (x : Nat) (place target : Target) :
    perform ⟨canvas, ⟨x, 0⟩, place⟩ ⟨none, .right, target⟩ =
      if x + 1 < canvas.width then ⟨canvas, ⟨x + 1, 0⟩, target⟩
      else ⟨canvas, ⟨x, 0⟩, .exit edgeStatus⟩ := by
  by_cases hroom : x + 1 < canvas.width <;>
    simp [perform, Cursor.move?, painted, Machine.applyWrite, hroom]

/-- A move to the left along a row, away from the left end. -/
theorem perform_left (canvas : Canvas) (x : Nat) (write : Option Color) (place target : Target) :
    perform ⟨canvas, ⟨x + 1, 0⟩, place⟩ ⟨write, .left, target⟩ =
      ⟨Machine.applyWrite canvas (x + 1) write, ⟨x, 0⟩, target⟩ := by
  simp [perform, Cursor.move?, painted, offset, Canvas.offset]

/-- From the left end or a colored pixel the program goes on to the right. -/
theorem Pacing.right (hcanvas : canvas.Darkened width dark) (hdark : dark < width) (hx : x ≤ dark)
    (hn : n = dark * (dark + 1) + x) (place : Target) :
    Pacing width (n + 1) (perform ⟨canvas, ⟨x, 0⟩, place⟩ ⟨none, .right, .jump 1⟩) := by
  rw [perform_right, hcanvas.width_eq]
  split
  · next hroom => exact .forth hcanvas hdark (by omega) (by omega) hroom (by omega)
  · obtain rfl : width = dark + 1 := by omega
    refine .off ?_
    rw [Nat.succ_mul]
    omega

/-- The program goes on pacing until it is off the row. -/
theorem Pacing.next (h : Pacing width n c) (halive : c.isExited = false) :
    Pacing width (n + 1) (c.next Code.pacing) := by
  cases h with
  | @back dark x canvas hcanvas hdark hx hn =>
    rw [next_row, Slot.of]
    cases hwhite : (canvas.pixelAt x).isWhite with
    | false =>
      obtain ⟨hpos, -⟩ := (hcanvas.colored_iff x (by omega)).mp hwhite
      obtain ⟨x, rfl⟩ := Nat.exists_eq_succ_of_ne_zero (Nat.ne_of_gt hpos)
      change Pacing width (n + 1) (perform _ ⟨none, .left, .jump 0⟩)
      rw [perform_left]
      exact .back hcanvas hdark (by omega) (by omega)
    | true =>
      have hend := (hcanvas.white_iff (by omega)).mp hwhite
      exact .right hcanvas hdark hx (by omega) _
  | @forth dark x canvas hcanvas hdark hpos hx hwidth hn =>
    rw [next_row, Slot.of]
    cases hwhite : (canvas.pixelAt x).isWhite with
    | false =>
      obtain ⟨-, hle⟩ := (hcanvas.colored_iff x hwidth).mp hwhite
      exact .right hcanvas hdark hle hn _
    | true =>
      have hbeyond := (hcanvas.white_iff hwidth).mp hwhite
      obtain rfl : x = dark + 1 := by omega
      change Pacing width (n + 1) (perform _ ⟨some .black, .left, .jump 0⟩)
      rw [perform_left]
      refine .back (hcanvas.put hwidth) hwidth (Nat.le_succ dark) ?_
      rw [Nat.succ_mul, Nat.mul_succ]
      omega
  | off hn => simp [isExited, Target.isExit] at halive

/-- It is still pacing only before as many instructions as the square of the width. -/
theorem Pacing.lt_of_alive (h : Pacing width n c) (halive : c.isExited = false) :
    n < width * width := by
  cases h with
  | @back dark x canvas hcanvas hdark hx hn =>
    calc
      n ≤ dark * (dark + 1) := by omega
      _ < (dark + 1) * (dark + 1) := Nat.mul_lt_mul_of_pos_right (Nat.lt_succ_self dark) (by omega)
      _ ≤ width * width := Nat.mul_le_mul hdark hdark
  | @forth dark x canvas hcanvas hdark hpos hx hwidth hn =>
    have hsquare : dark * (dark + 1) + (dark + 1) = (dark + 1) * (dark + 1) :=
      (Nat.succ_mul dark (dark + 1)).symm
    rcases Nat.lt_or_ge dark x with hturn | hpass
    · obtain rfl : x = dark + 1 := by omega
      calc
        n = (dark + 1) * (dark + 1) := by rw [hn, hsquare]
        _ < width * width := Nat.mul_self_lt_mul_self hwidth
    · calc
        n < (dark + 1) * (dark + 1) := by omega
        _ ≤ width * width := Nat.mul_le_mul hdark hdark
  | off hn => simp [isExited, Target.isExit] at halive

theorem Pacing.of_isExited (h : Pacing width n c) (hexited : c.isExited = true) :
    n = width * width ∧ c.place = .exit edgeStatus := by
  cases h with
  | back => simp [isExited, Target.isExit] at hexited
  | forth => simp [isExited, Target.isExit] at hexited
  | off hn => exact ⟨hn, rfl⟩

theorem Pacing.iterate (h : Pacing width 0 c) :
    ∀ n ≤ width * width, Pacing width n ((Config.next Code.pacing)^[n] c)
  | 0, _ => h
  | n + 1, hn => by
      have hpacing := h.iterate n (by omega)
      rw [Function.iterate_succ_apply']
      refine hpacing.next ?_
      rw [Bool.eq_false_iff]
      intro hexited
      have hover := (hpacing.of_isExited hexited).1
      omega

end Config

namespace Machine

/-- The configuration tells the status that a run ended with. -/
theorem state_of_place {m : Machine} {status : Status} (h : m.config.place = .exit status) :
    m.state = .exited status := by
  rw [← exitStatus?_eq_some]
  unfold config at h
  cases hm : m.exitStatus? with
  | none => simp [hm] at h
  | some found => simpa [hm] using h

/-- On a blank row the program runs for as many instructions as the square of the
width, and is then off the right end. -/
theorem after_pacing {p : Program} (hp : p.code = Code.pacing) {width : Nat} {canvas : Canvas}
    (hcanvas : canvas.Darkened width 0) :
    (∀ n < width * width, ((start p canvas).after n).isExited = false) ∧
      ((start p canvas).after (width * width)).state = .exited edgeStatus := by
  have hentry : p.entry = .jump 0 := by
    rw [Program.entry, hp]
    rfl
  have hwidth : 0 < width := hcanvas.width_eq ▸ canvas.width_pos
  have hpacing : ∀ n ≤ width * width,
      Config.Pacing width n ((start p canvas).after n).config := by
    intro n hn
    rw [config_after, config_start, program_start, hp, hentry]
    exact Config.Pacing.iterate (.back hcanvas hwidth (Nat.le_refl 0) rfl) n hn
  constructor
  · intro n hn
    rw [← isExited_config, Bool.eq_false_iff]
    intro hexited
    have hover := ((hpacing n (Nat.le_of_lt hn)).of_isExited hexited).1
    omega
  · have hlast := hpacing _ (Nat.le_refl _)
    have hexited : ((start p canvas).after (width * width)).config.isExited = true := by
      rw [← Bool.not_eq_false]
      intro halive
      exact Nat.lt_irrefl _ (hlast.lt_of_alive halive)
    exact state_of_place (hlast.of_isExited hexited).2

end Machine

namespace Terminal.DebugSession

/-- Of an exit in the second frame, only that frame is reported. -/
theorem resumeMachine_of_exits {m : Machine} {total : Nat} {status : Status}
    (halive : ∀ n < total, (m.after n).isExited = false)
    (hend : (m.after total).state = .exited status) (hmore : frame < total)
    (hfits : total ≤ frame + frame) (frames : Nat) :
    resumeMachine [] (frames + 1) m = (m.after total, ⟨total - frame, some status, false⟩) := by
  obtain ⟨rest, rfl⟩ := Nat.exists_eq_add_of_le (Nat.le_of_lt hmore)
  have hfirst := Machine.stopped_step_nil (halive frame hmore)
  have hsecond : (m.after frame).step frame [] =
      ((m.after frame).after rest, ⟨rest, some status, false⟩) := by
    refine Machine.step_nil_of_exits (fun n hn => ?_) ?_ (by omega)
    · rw [← Machine.after_add]
      exact halive (frame + n) (by omega)
    · rw [← Machine.after_add, hend]
  rw [resumeMachine_of_not_stopped hfirst]
  change resumeMachine [] frames (m.after frame) = _
  rw [resumeMachine_of_stopped (by rw [hsecond]; rfl), hsecond, Machine.after_add,
    Nat.add_sub_cancel_left]

/-- A `continue` that nothing interrupts runs the pacing program to its exit, for
100489 instructions, and shows 489. -/
theorem resume_counts_short :
    ∃ p canvas,
      Program.compile .standard ("back: while color left else right\n" ++
        "while color right else write black left goto back") = .ok p ∧
      Canvas.blank 317 1 = .ok canvas ∧
      ∀ frames, (start (.start p canvas) []).stopsItself (frames + 1) .resume = true ∧
        (start (.start p canvas) []).machine.executed = 0 ∧
        ((start (.start p canvas) []).respond (frames + 1) .resume).1.machine.executed = 100489 ∧
        ((start (.start p canvas) []).respond (frames + 1) .resume).2 =
          paintMachine ((start (.start p canvas) []).respond (frames + 1) .resume).1.machine ++
            "489 instructions, exited with 2\n" := by
  obtain ⟨p, hp, hcode⟩ : ∃ p,
      Program.compile .standard ("back: while color left else right\n" ++
        "while color right else write black left goto back") = .ok p ∧ p.code = Code.pacing :=
    ⟨_, rfl, rfl⟩
  obtain ⟨canvas, hcanvas, hrow⟩ := Canvas.exists_darkened_blank (by decide : 0 < 317) (by decide)
  obtain ⟨halive, hend⟩ := Machine.after_pacing hcode hrow
  refine ⟨p, canvas, hp, hcanvas, fun frames => ?_⟩
  have hresume := resumeMachine_of_exits halive hend (by decide) (by decide) frames
  have hexecuted : ((Machine.start p canvas).after (317 * 317)).executed = 317 * 317 := by
    rw [Machine.executed_after_of_forall halive, Machine.executed_start, Nat.zero_add]
  have hcurrent : current ((Machine.start p canvas).after (317 * 317)) = "exited with 2" := by
    rw [current, Machine.exitStatus?_eq_some.mpr hend]
    rfl
  refine ⟨?_, Machine.executed_start p canvas, ?_, ?_⟩
  · change (resumeMachine [] (frames + 1) (.start p canvas)).2.stopped = true
    rw [hresume]
    rfl
  · change (resumeMachine [] (frames + 1) (.start p canvas)).1.executed = 100489
    rw [hresume, hexecuted]
  · change report (resumeMachine [] (frames + 1) (.start p canvas)).1
      (resumeMachine [] (frames + 1) (.start p canvas)).2 =
        paintMachine (resumeMachine [] (frames + 1) (.start p canvas)).1 ++ _
    have htext : s!"{317 * 317 - frame} instructions, " ++ "exited with 2" ++ "\n" =
        "489 instructions, exited with 2\n" := by decide
    rw [hresume, report, hcurrent, ← htext]
    simp [String.append_assoc]

end Terminal.DebugSession

end PixelTurtle
