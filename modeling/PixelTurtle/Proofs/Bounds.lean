/-
PixelTurtle.Proofs.Bounds — a machine never goes wrong.

A machine looks up pixels and lines by number and moves its cursor by adding
and subtracting. `Machine.checkedStep` is a step in which every look-up and
every sum can fail: it gives nothing where a pixel or a line does not exist,
and where a number leaves 64 bits.

* `Machine.InBounds` — the invariant: the cursor is on the canvas, the next
  line exists and holds an instruction unless the run has ended, and every
  line has its coverage. `InBounds.tick` is its step lemma.
* `Machine.checkedPerform_eq_some` — under the invariant nothing fails,
  whatever is done with the machine.
-/
import PixelTurtle.Proofs.Run

namespace PixelTurtle

/-! ## Steps that can fail -/

namespace Checked

/-- The sum of two numbers, if it fits 64 bits. -/
def add (a b : Nat) : Option Nat :=
  if a + b < UInt64.size then some (a + b) else none

/-- The product of two numbers, if it fits 64 bits. -/
def mul (a b : Nat) : Option Nat :=
  if a * b < UInt64.size then some (a * b) else none

/-- The difference of two numbers, if it is not negative. -/
def sub (a b : Nat) : Option Nat :=
  if b ≤ a then some (a - b) else none

end Checked

namespace Cursor

/-- Where the pixel under the cursor is kept. -/
def checkedOffset (c : Cursor) (width : Nat) : Option Nat := do
  let row ← Checked.mul c.y width
  Checked.add row c.x

/-- The next cell in a direction: the move fails, or leads off a canvas of the
given size, or leads to a cell. -/
def checkedMove (c : Cursor) (direction : Direction) (width height : Nat) :
    Option (Option Cursor) :=
  match direction with
  | .nowhere => some (some c)
  | .up => do
      let y ← Checked.add c.y 1
      return if y < height then some ⟨c.x, y⟩ else none
  | .down =>
      if 0 < c.y then do
        let y ← Checked.sub c.y 1
        return some ⟨c.x, y⟩
      else some none
  | .left =>
      if 0 < c.x then do
        let x ← Checked.sub c.x 1
        return some ⟨x, c.y⟩
      else some none
  | .right => do
      let x ← Checked.add c.x 1
      return if x < width then some ⟨x, c.y⟩ else none

end Cursor

/-- Paint the pixel at an offset if there is something to write. -/
def Canvas.checkedWrite (c : Canvas) (offset : Nat) : Option Color → Option Canvas
  | none => some c
  | some color => if offset < c.pixels.size then some (c.put offset color) else none

namespace Machine

/-- Execute one instruction. -/
def checkedTick (m : Machine) : Option Machine := do
  let offset ← m.cursor.checkedOffset m.canvas.width
  let pixel ← m.canvas.pixels[offset]?
  let instruction ← m.program.code[m.line]?
  let action := instruction.action (Slot.of pixel)
  let canvas ← m.canvas.checkedWrite offset action.write
  let moved ← m.cursor.checkedMove action.direction canvas.width canvas.height
  let m : Machine :=
    { m with canvas := canvas, executed := m.executed + 1,
             coverage := m.coverage.cover m.line (Slot.of pixel) }
  match moved, action.target with
  | none, _ => return { m with state := .exited edgeStatus }
  | some cursor, .exit status => return { m with cursor := cursor, state := .exited status }
  | some cursor, .jump line => return { m with cursor := cursor, line := line }

/-- Execute up to `budget` more instructions. -/
def checkedSteps (breakpoints : List Nat) : Nat → Nat → Machine → Option (Machine × StepReport)
  | 0, executed, m => some (m, ⟨executed, none, false⟩)
  | budget + 1, executed, m => do
      let m ← m.checkedTick
      match m.state with
      | .exited status => return (m, ⟨executed + 1, some status, false⟩)
      | _ =>
          if breakpoints.contains m.line then return (m, ⟨executed + 1, none, true⟩)
          else checkedSteps breakpoints budget (executed + 1) m

/-- Execute up to `budget` instructions. -/
def checkedStep (m : Machine) (budget : Nat) (breakpoints : List Nat) :
    Option (Machine × StepReport) :=
  match m.state with
  | .exited status => some (m, ⟨0, some status, false⟩)
  | _ => checkedSteps breakpoints budget 0 { m with state := .running }

/-- Carry out one operation. -/
def checkedApply (m : Machine) : Operation → Option Machine
  | .reset canvas => some (m.reset canvas)
  | .step budget breakpoints => (m.checkedStep budget breakpoints).map Prod.fst
  | .clearCoverage => some m.clearCoverage

/-- Carry out operations in order. -/
def checkedPerform (m : Machine) (operations : List Operation) : Option Machine :=
  operations.foldlM checkedApply m

end Machine

/-! ## What a step relies on -/

theorem Coverage.size_cover (c : Coverage) (line : Nat) (slot : Slot) :
    (c.cover line slot).white.size = c.white.size ∧
      (c.cover line slot).color.size = c.color.size := by
  cases slot <;> simp [Coverage.cover]

theorem Canvas.sides_lt (c : Canvas) : c.width < UInt64.size ∧ c.height < UInt64.size := by
  have hfits := c.fits
  exact ⟨(Nat.le_mul_of_pos_right _ c.height_pos).trans_lt hfits,
    (Nat.le_mul_of_pos_left _ c.width_pos).trans_lt hfits⟩

/-- A cursor on a canvas moves without leaving 64 bits. -/
theorem Cursor.checkedMove_eq_some {c : Cursor} {width height : Nat} (hx : c.x < width)
    (hy : c.y < height) (hwidth : width < UInt64.size) (hheight : height < UInt64.size)
    (direction : Direction) :
    c.checkedMove direction width height = some (c.move? direction width height) := by
  have hright : c.x + 1 < UInt64.size := by omega
  have hup : c.y + 1 < UInt64.size := by omega
  cases direction with
  | nowhere => rfl
  | up => simp [Cursor.checkedMove, Cursor.move?, Checked.add, hup]
  | right => simp [Cursor.checkedMove, Cursor.move?, Checked.add, hright]
  | down =>
    by_cases hpos : 0 < c.y
    · simp [Cursor.checkedMove, Cursor.move?, Checked.sub, hpos, Nat.succ_le_of_lt hpos]
    · simp [Cursor.checkedMove, Cursor.move?, hpos]
  | left =>
    by_cases hpos : 0 < c.x
    · simp [Cursor.checkedMove, Cursor.move?, Checked.sub, hpos, Nat.succ_le_of_lt hpos]
    · simp [Cursor.checkedMove, Cursor.move?, hpos]

/-! ## The invariant -/

namespace Machine

/-- A machine in which every look-up finds what it looks for. -/
structure InBounds (m : Machine) : Prop where
  x_lt : m.cursor.x < m.canvas.width
  y_lt : m.cursor.y < m.canvas.height
  size_pixels : m.canvas.pixels.size = m.canvas.width * m.canvas.height
  line_lt : m.line < m.program.size
  size_white : m.coverage.white.size = m.program.size
  size_color : m.coverage.color.size = m.program.size
  holdsInstruction : m.isExited = false → m.program.code.isPlaceholder m.line = false

variable {m : Machine}

/-- The machine with the write of its next action made and the action
recorded, but before it moves and goes on. -/
def acted (m : Machine) : Machine :=
  { m with canvas := m.config.painted m.nextAction.write, executed := m.executed + 1,
           coverage := m.coverage.cover m.line (Slot.of m.pixel) }

/-- All that one instruction can do. -/
theorem tick_eq (m : Machine) :
    m.tick =
      match m.cursor.move? m.nextAction.direction m.canvas.width m.canvas.height,
        m.nextAction.target with
      | none, _ => { m.acted with state := .exited edgeStatus }
      | some cursor, .exit status => { m.acted with cursor := cursor, state := .exited status }
      | some cursor, .jump line => { m.acted with cursor := cursor, line := line } := by
  have hwidth := m.config.width_painted
  have hheight := m.config.height_painted
  obtain ⟨program, canvas, line, cursor, state, executed, coverage⟩ := m
  simp only [Config.painted, Config.offset, config] at hwidth hheight
  simp only [tick, acted, nextAction, pixel, Config.painted, Config.offset, config, hwidth, hheight]
  generalize program.code.action line _ = a
  cases cursor.move? a.direction canvas.width canvas.height with
  | none => rfl
  | some cursor' => cases a.target <;> rfl

@[simp] theorem width_acted (m : Machine) : m.acted.canvas.width = m.canvas.width :=
  m.config.width_painted _

@[simp] theorem height_acted (m : Machine) : m.acted.canvas.height = m.canvas.height :=
  m.config.height_painted _

theorem InBounds.acted (h : m.InBounds) : m.acted.InBounds where
  x_lt := by rw [width_acted]; exact h.x_lt
  y_lt := by rw [height_acted]; exact h.y_lt
  size_pixels := m.acted.canvas.size_pixels
  line_lt := h.line_lt
  size_white := (m.coverage.size_cover m.line _).1.trans h.size_white
  size_color := (m.coverage.size_cover m.line _).2.trans h.size_color
  holdsInstruction := h.holdsInstruction

/-- One instruction keeps a machine of a sound program in bounds. -/
theorem InBounds.tick (hsound : m.program.code.Sound) (h : m.InBounds) : m.tick.InBounds := by
  have hacted := h.acted
  have hx : m.cursor.x < m.acted.canvas.width := hacted.x_lt
  have hy : m.cursor.y < m.acted.canvas.height := hacted.y_lt
  rw [tick_eq, ← width_acted, ← height_acted]
  split
  · -- off the canvas: the cursor stays and the run ends
    exact { hacted with holdsInstruction := by simp [isExited, exitStatus?] }
  · next cursor status hmove htarget =>
    have hcursor := Config.move?_lt hx hy hmove
    exact { hacted with
      x_lt := hcursor.1
      y_lt := hcursor.2
      holdsInstruction := by simp [isExited, exitStatus?] }
  · next cursor line hmove htarget =>
    have hcursor := Config.move?_lt hx hy hmove
    -- the only place where the program has to be sound
    have hrun := hsound.jumps _ _ _ htarget
    exact { hacted with
      x_lt := hcursor.1
      y_lt := hcursor.2
      line_lt := hrun.1
      holdsInstruction := fun _ => hrun.2 }

/-- What waking a machine and executing an instruction keep, a run keeps. -/
theorem after_rec {P : Machine → Prop} (hwake : ∀ m, P m → P m.wake) (htick : ∀ m, P m → P m.tick)
    {m : Machine} (h : P m) (n : Nat) : P (m.after n) := by
  induction n with
  | zero =>
    rw [after_zero]
    exact hwake m h
  | succ n ih =>
    rw [after_succ, advance]
    split
    · exact ih
    · exact htick _ ih

theorem InBounds.wake (h : m.InBounds) : m.wake.InBounds := by
  unfold Machine.wake
  split
  · exact h
  · next halive =>
    exact { h with holdsInstruction := fun _ => h.holdsInstruction (by simpa using halive) }

theorem InBounds.clearCoverage (h : m.InBounds) : m.clearCoverage.InBounds :=
  { h with
    size_white := Array.size_map.trans h.size_white
    size_color := Array.size_map.trans h.size_color }

/-- A sound program begins in bounds on every canvas. -/
theorem inBounds_reset (hsound : m.program.code.Sound) (hpos : 0 < m.program.size)
    (hwhite : m.coverage.white.size = m.program.size)
    (hcolor : m.coverage.color.size = m.program.size) (canvas : Canvas) :
    (m.reset canvas).InBounds := by
  have hvalid := valid_start hsound canvas
  unfold reset
  split
  · next line hentry =>
    have hrun := hvalid.canRun line hentry
    exact ⟨canvas.width_pos, canvas.height_pos, canvas.size_pixels, hrun.1, hwhite, hcolor,
      fun _ => hrun.2⟩
  · exact ⟨canvas.width_pos, canvas.height_pos, canvas.size_pixels, hpos, hwhite, hcolor,
      by simp [isExited, exitStatus?]⟩

theorem inBounds_start {p : Program} (hsound : p.code.Sound) (hpos : 0 < p.size) (canvas : Canvas) :
    (start p canvas).InBounds :=
  inBounds_reset hsound hpos (by simp [Coverage.none]) (by simp [Coverage.none]) canvas

theorem InBounds.after (hsound : m.program.code.Sound) (h : m.InBounds) (n : Nat) :
    (m.after n).InBounds := by
  have hrun : (m.after n).program = m.program ∧ (m.after n).InBounds := by
    refine after_rec (P := fun m' => m'.program = m.program ∧ m'.InBounds) ?_ ?_ ⟨rfl, h⟩ n
    · rintro m' ⟨hprogram, hm'⟩
      exact ⟨(program_wake m').trans hprogram, hm'.wake⟩
    · rintro m' ⟨hprogram, hm'⟩
      exact ⟨(program_tick m').trans hprogram, hm'.tick (hprogram ▸ hsound)⟩
  exact hrun.2

theorem InBounds.apply (hsound : m.program.code.Sound) (h : m.InBounds) (o : Operation) :
    (m.apply o).InBounds := by
  cases o with
  | reset canvas =>
    exact inBounds_reset hsound (Nat.zero_lt_of_lt h.line_lt) h.size_white h.size_color canvas
  | step budget breakpoints =>
    rw [Machine.apply, step_eq_after]
    exact h.after hsound _
  | clearCoverage => exact h.clearCoverage

theorem InBounds.perform (hsound : m.program.code.Sound) (h : m.InBounds)
    (operations : List Operation) : (m.perform operations).InBounds := by
  induction operations generalizing m with
  | nil => exact h
  | cons o rest ih =>
    refine ih (m := m.apply o) ?_ (h.apply hsound o)
    rwa [program_apply]

/-! ## Nothing fails -/

theorem checkedOffset_eq_some (h : m.InBounds) :
    m.cursor.checkedOffset m.canvas.width = some (m.canvas.offset m.cursor.x m.cursor.y) := by
  have hlt := m.canvas.offset_lt h.x_lt h.y_lt
  have hfits := m.canvas.fits
  rw [m.canvas.size_pixels, Canvas.offset] at hlt
  have hrow : m.cursor.y * m.canvas.width < UInt64.size := by omega
  have hsum : m.cursor.y * m.canvas.width + m.cursor.x < UInt64.size := by omega
  simp [Cursor.checkedOffset, Checked.mul, Checked.add, Canvas.offset, hrow, hsum]

theorem checkedTick_eq_some (h : m.InBounds) : m.checkedTick = some m.tick := by
  have hoffset := checkedOffset_eq_some h
  have hlt := m.canvas.offset_lt h.x_lt h.y_lt
  have hpixel : m.canvas.pixels[m.canvas.offset m.cursor.x m.cursor.y]? = some m.pixel := by
    simp [pixel, Canvas.pixelAt, hlt]
  have hline : m.line < m.program.code.size := h.line_lt
  have hinstruction : m.program.code[m.line]? = some m.program.code[m.line] := by simp [hline]
  have haction : (m.program.code[m.line]).action (Slot.of m.pixel) = m.nextAction :=
    (Code.action_of_lt hline _).symm
  have hwrite : m.canvas.checkedWrite (m.canvas.offset m.cursor.x m.cursor.y) m.nextAction.write =
      some m.acted.canvas := by
    change _ = some (applyWrite m.canvas (m.canvas.offset m.cursor.x m.cursor.y) m.nextAction.write)
    cases m.nextAction.write with
    | none => rfl
    | some color => simp [Canvas.checkedWrite, applyWrite, hlt]
  have hmove := Cursor.checkedMove_eq_some h.acted.x_lt h.acted.y_lt m.acted.canvas.sides_lt.1
    m.acted.canvas.sides_lt.2 m.nextAction.direction
  change m.cursor.checkedMove _ _ _ = some (m.cursor.move? _ _ _) at hmove
  rw [tick_eq, checkedTick, hoffset]
  simp only [Option.bind_eq_bind, Option.bind_some, hpixel, hinstruction, haction, hwrite, hmove]
  rw [width_acted, height_acted]
  cases m.cursor.move? m.nextAction.direction m.canvas.width m.canvas.height with
  | none => rfl
  | some cursor => cases m.nextAction.target <;> rfl

/-- The loop of a step, by induction on its budget. -/
theorem checkedSteps_eq_some (breakpoints : List Nat) :
    ∀ (budget executed : Nat) (m : Machine), m.program.code.Sound → m.InBounds →
      checkedSteps breakpoints budget executed m = some (steps breakpoints budget executed m)
  | 0, executed, m, _, _ => rfl
  | budget + 1, executed, m, hsound, h => by
      have hrest := checkedSteps_eq_some breakpoints budget (executed + 1) m.tick
        (by rwa [program_tick]) (h.tick hsound)
      rw [checkedSteps, steps, checkedTick_eq_some h]
      simp only [Option.bind_eq_bind, Option.bind_some, hrest]
      cases m.tick.state with
      | exited status => rfl
      | _ => dsimp only; split <;> rfl

theorem checkedStep_eq_some (hsound : m.program.code.Sound) (h : m.InBounds) (budget : Nat)
    (breakpoints : List Nat) :
    m.checkedStep budget breakpoints = some (m.step budget breakpoints) := by
  unfold checkedStep step
  cases hstate : m.state with
  | exited status => rfl
  | _ =>
    have halive : m.isExited = false := by simp [isExited, exitStatus?, hstate]
    exact checkedSteps_eq_some breakpoints budget 0 _ hsound
      { h with holdsInstruction := fun _ => h.holdsInstruction halive }

theorem checkedApply_eq_some (hsound : m.program.code.Sound) (h : m.InBounds) (o : Operation) :
    m.checkedApply o = some (m.apply o) := by
  cases o with
  | reset canvas => rfl
  | step budget breakpoints => rw [checkedApply, checkedStep_eq_some hsound h]; rfl
  | clearCoverage => rfl

/-- Whatever is done with a machine in bounds, nothing fails. -/
theorem checkedPerform_eq_some (hsound : m.program.code.Sound) (h : m.InBounds)
    (operations : List Operation) : m.checkedPerform operations = some (m.perform operations) := by
  induction operations generalizing m with
  | nil => rfl
  | cons o rest ih =>
    have hrest := ih (m := m.apply o) (by rwa [program_apply]) (h.apply hsound o)
    rw [checkedPerform, List.foldlM_cons, checkedApply_eq_some hsound h]
    exact hrest

/-! ## The size of the canvas -/

/-- The canvas that a machine was given last. -/
def lastCanvas (canvas : Canvas) : List Operation → Canvas
  | [] => canvas
  | .reset next :: rest => lastCanvas next rest
  | _ :: rest => lastCanvas canvas rest

/-- The machine draws on a canvas of this size. -/
def SizedAs (canvas : Canvas) (m : Machine) : Prop :=
  m.canvas.width = canvas.width ∧ m.canvas.height = canvas.height

theorem SizedAs.after {canvas : Canvas} (h : m.SizedAs canvas) (n : Nat) :
    (m.after n).SizedAs canvas := by
  refine after_rec (P := SizedAs canvas) ?_ ?_ h n
  · intro m hm
    unfold wake
    split <;> exact hm
  · intro m hm
    have hacted : m.acted.SizedAs canvas := by
      unfold SizedAs
      rw [width_acted, height_acted]
      exact hm
    rw [tick_eq]
    split <;> exact hacted

/-- Only a reset changes the size of the canvas. -/
theorem sizedAs_perform {canvas : Canvas} (h : m.SizedAs canvas) (operations : List Operation) :
    (m.perform operations).SizedAs (lastCanvas canvas operations) := by
  induction operations generalizing m canvas with
  | nil => exact h
  | cons o rest ih =>
    cases o with
    | reset next =>
      refine ih (m := m.reset next) ?_
      unfold reset
      split <;> exact ⟨rfl, rfl⟩
    | step budget breakpoints =>
      refine ih (m := m.apply (.step budget breakpoints)) ?_
      rw [apply, step_eq_after]
      exact h.after _
    | clearCoverage => exact ih (m := m.clearCoverage) h

end Machine

namespace Program

/-- A compiled program has a line. -/
theorem size_pos_of_compile {options : CompileOptions} {source : String} {p : Program}
    (h : compile options source = .ok p) : 0 < p.size := by
  obtain ⟨d, linked, code, hd, hlinked, hcode, rfl⟩ := compile_eq_ok_iff.mp h
  have hkinds := (passes_spec (linked_of_ofSource hd hlinked) hcode).1
  rw [size, Code.size_congr hkinds, Draft.size_of_link hlinked, (Draft.ofSource_spec hd).2.1]
  exact Nat.succ_pos _

/-- Whatever is done with a machine that was started with a compiled program,
it stays in bounds and draws on a canvas of the size it was last given, and no
look-up and no sum of any of its steps fails. -/
theorem perform_inBounds {options : CompileOptions} {source : String} {p : Program}
    (h : compile options source = .ok p) (canvas : Canvas) (operations : List Machine.Operation) :
    ((Machine.start p canvas).perform operations).InBounds ∧
      ((Machine.start p canvas).perform operations).SizedAs
        (Machine.lastCanvas canvas operations) ∧
      (Machine.start p canvas).checkedPerform operations =
        some ((Machine.start p canvas).perform operations) := by
  have hsound : (Machine.start p canvas).program.code.Sound := by
    rw [Machine.program_start]
    exact sound_of_compile h
  have hstart := Machine.inBounds_start (sound_of_compile h) (size_pos_of_compile h) canvas
  have hsized : (Machine.start p canvas).SizedAs canvas := by
    unfold Machine.start Machine.reset
    split <;> exact ⟨rfl, rfl⟩
  exact ⟨hstart.perform hsound operations, Machine.sizedAs_perform hsized operations,
    Machine.checkedPerform_eq_some hsound hstart operations⟩

/-- Off the top of one canvas, and then on a taller one behind a blank line. -/
theorem perform_inBounds_two_canvases :
    ∃ p low tall, compile ⟨.palette, true, none⟩ "\na: write red up goto a" = .ok p ∧
      Canvas.blank 1 1 = .ok low ∧ Canvas.blank 2 3 = .ok tall ∧
      ((Machine.start p low).perform
        [.step 4 [1], .reset tall, .step 1 [], .clearCoverage, .step 1 [1]]).InBounds ∧
      ((Machine.start p low).perform
        [.step 4 [1], .reset tall, .step 1 [], .clearCoverage, .step 1 [1]]).SizedAs tall ∧
      (Machine.start p low).checkedPerform
          [.step 4 [1], .reset tall, .step 1 [], .clearCoverage, .step 1 [1]] =
        some ((Machine.start p low).perform
          [.step 4 [1], .reset tall, .step 1 [], .clearCoverage, .step 1 [1]]) := by
  obtain ⟨p, low, tall, hp, hlow, htall⟩ : ∃ p low tall,
      compile ⟨.palette, true, none⟩ "\na: write red up goto a" = .ok p ∧
      Canvas.blank 1 1 = .ok low ∧ Canvas.blank 2 3 = .ok tall := ⟨_, _, _, rfl, rfl, rfl⟩
  exact ⟨p, low, tall, hp, hlow, htall, perform_inBounds hp low _⟩

end Program

end PixelTurtle
