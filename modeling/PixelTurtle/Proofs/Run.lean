/-
PixelTurtle.Proofs.Run — runs as walks of a step function.

A `Config` is what decides how a run goes on: the canvas, the cursor, and
the line to run next or the status the run ended with. `Config.next` executes
one instruction. A machine adds a counter and the coverage, and cuts the walk
into calls; neither changes where it leads:

* `Machine.after_eq_iterate` — a run of a given budget is that many
  executions, and `Machine.step_eq_after` says the same of a step.
* `Machine.config_after`, `Machine.executed_after` — the configuration and
  the counter after a run, in terms of the walk.
* `Machine.valid_perform` — whatever is done with a machine, its cursor stays
  on the canvas and it stands on lines that hold an instruction.
-/
import PixelTurtle.Machine
import PixelTurtle.Proofs.WellFormed
import Mathlib.Logic.Function.Iterate

namespace PixelTurtle

/-! ## Painting -/

namespace Canvas

theorem pixelAt_put_self (c : Canvas) {offset : Nat} (h : offset < c.pixels.size) (color : Color) :
    (c.put offset color).pixelAt offset = color := by
  simp [pixelAt, put, h]

theorem pixelAt_put_of_ne (c : Canvas) {offset other : Nat} (h : offset ≠ other) (color : Color) :
    (c.put offset color).pixelAt other = c.pixelAt other := by
  simp [pixelAt, put, Array.getD_eq_getD_getElem?, Array.getElem?_setIfInBounds_ne h]

theorem put_put (c : Canvas) (offset : Nat) (first second : Color) :
    (c.put offset first).put offset second = c.put offset second := by
  simp [put, Array.setIfInBounds_setIfInBounds]

end Canvas

/-! ## Configurations -/

/-- What decides how a run goes on. -/
structure Config where
  canvas : Canvas
  cursor : Cursor
  /-- The line that runs next, or the exit taken. -/
  place : Target

namespace Config

/-- Where the pixel under the cursor is kept. -/
def offset (c : Config) : Nat :=
  c.canvas.offset c.cursor.x c.cursor.y

/-- The pixel under the cursor. -/
def pixel (c : Config) : Color :=
  c.canvas.pixelAt c.offset

/-- Whether the run has ended. -/
def isExited (c : Config) : Bool :=
  c.place.isExit

/-- The cursor is on the canvas. -/
def OnCanvas (c : Config) : Prop :=
  c.cursor.x < c.canvas.width ∧ c.cursor.y < c.canvas.height

/-- The canvas with a write made under the cursor. -/
def painted (c : Config) (write : Option Color) : Canvas :=
  Machine.applyWrite c.canvas c.offset write

/-- Carry out an action. -/
def perform (c : Config) (a : Action Target) : Config :=
  match c.cursor.move? a.direction c.canvas.width c.canvas.height with
  | none => ⟨c.painted a.write, c.cursor, .exit edgeStatus⟩
  | some cursor => ⟨c.painted a.write, cursor, a.target⟩

/-- Execute one instruction, unless the run has ended. -/
def next (code : Code) (c : Config) : Config :=
  match c.place with
  | .exit _ => c
  | .jump line => c.perform (code.action line (Slot.of c.pixel))

variable {code : Code} {c : Config}

theorem next_of_jump {line : Nat} (h : c.place = .jump line) :
    c.next code = c.perform (Branch.action code ⟨c.pixel, line⟩) := by
  rw [next, h]
  rfl

theorem next_of_isExited (h : c.isExited = true) : c.next code = c := by
  cases hp : c.place with
  | exit status => rw [next, hp]
  | jump line => simp [isExited, hp, Target.isExit] at h

theorem isExited_eq_false : c.isExited = false ↔ ∃ line, c.place = .jump line := by
  cases hp : c.place <;> simp [isExited, hp, Target.isExit]

theorem isExited_of_next (h : (c.next code).isExited = false) : c.isExited = false := by
  cases hc : c.isExited with
  | false => rfl
  | true => rwa [next_of_isExited hc, hc] at h

@[simp] theorem width_painted (c : Config) (write : Option Color) :
    (c.painted write).width = c.canvas.width := by
  cases write <;> rfl

@[simp] theorem height_painted (c : Config) (write : Option Color) :
    (c.painted write).height = c.canvas.height := by
  cases write <;> rfl

theorem width_perform (c : Config) (a : Action Target) :
    (c.perform a).canvas.width = c.canvas.width := by
  unfold perform
  split <;> simp

theorem height_perform (c : Config) (a : Action Target) :
    (c.perform a).canvas.height = c.canvas.height := by
  unfold perform
  split <;> simp

/-- A move that stays on the canvas. -/
theorem move?_lt {cursor cursor' : Cursor} {direction : Direction} {width height : Nat}
    (hx : cursor.x < width) (hy : cursor.y < height)
    (h : cursor.move? direction width height = some cursor') :
    cursor'.x < width ∧ cursor'.y < height := by
  cases direction <;> simp only [Cursor.move?] at h
  case nowhere =>
    obtain rfl := Option.some.inj h
    exact ⟨hx, hy⟩
  all_goals
    split at h
    · obtain rfl := Option.some.inj h
      constructor <;> (dsimp only; omega)
    · simp at h

theorem OnCanvas.perform (h : c.OnCanvas) (a : Action Target) : (c.perform a).OnCanvas := by
  unfold OnCanvas
  rw [width_perform, height_perform]
  unfold Config.perform
  split
  · exact h
  · next cursor hmove => exact move?_lt h.1 h.2 hmove

/-! Two actions in a row of which the first stands still. -/

/-- An action that stands still and jumps paints and passes on. -/
theorem perform_of_stillJump? {a : Action Target} {line : Nat} (h : a.stillJump? = some line) :
    c.perform a = ⟨c.painted a.write, c.cursor, .jump line⟩ := by
  obtain ⟨hdirection, htarget⟩ := Action.stillJump?_eq_some.mp h
  simp [perform, hdirection, htarget, Cursor.move?]

/-- The pixel after a write is what was written. -/
theorem pixel_painted (h : c.OnCanvas) (write : Option Color) (place : Target) :
    (⟨c.painted write, c.cursor, place⟩ : Config).pixel = write.getD c.pixel := by
  cases write with
  | none => rfl
  | some color => exact c.canvas.pixelAt_put_self (c.canvas.offset_lt h.1 h.2) color

/-- Of two writes in a row the last counts. -/
theorem perform_carry (c : Config) (last : Action Target) (write : Option Color) (place : Target) :
    c.perform (last.carry write) = (⟨c.painted write, c.cursor, place⟩ : Config).perform last := by
  have hpainted : c.painted (last.write.or write) =
      (⟨c.painted write, c.cursor, place⟩ : Config).painted last.write := by
    cases hlast : last.write with
    | none => rfl
    | some color =>
      cases write with
      | none => rfl
      | some color' => exact (c.canvas.put_put _ _ _).symm
  simp only [perform, Action.carry, hpainted, width_painted, height_painted]

/-- The config may go on: its cursor is on the canvas, and it stands on a
line that holds an instruction unless the run has ended. -/
structure Valid (code : Code) (c : Config) : Prop where
  onCanvas : c.OnCanvas
  canRun : ∀ line, c.place = .jump line → code.CanRun line

theorem Valid.next (hsound : code.Sound) (h : c.Valid code) : (c.next code).Valid code := by
  cases hp : c.place with
  | exit status => rwa [next_of_isExited (by simp [isExited, hp, Target.isExit])]
  | jump line =>
    rw [next_of_jump hp]
    refine ⟨h.onCanvas.perform _, fun line' hline' => ?_⟩
    unfold perform at hline'
    split at hline'
    · simp at hline'
    · exact hsound.jumps _ _ _ hline'

/-! ## Walks of configurations -/

theorem iterate_of_isExited (h : c.isExited = true) (n : Nat) : (next code)^[n] c = c :=
  Function.iterate_fixed (next_of_isExited h) n

/-- A run that has ended stays as it is. -/
theorem iterate_eq_of_le {n m : Nat} (h : ((next code)^[n] c).isExited = true) (hle : n ≤ m) :
    (next code)^[m] c = (next code)^[n] c := by
  obtain ⟨k, rfl⟩ := Nat.exists_eq_add_of_le hle
  rw [Nat.add_comm, Function.iterate_add_apply, iterate_of_isExited h]

theorem Valid.iterate (hsound : code.Sound) (h : c.Valid code) (n : Nat) :
    ((Config.next code)^[n] c).Valid code :=
  Function.Iterate.rec (Valid code) h (fun _ h => h.next hsound) n

/-- How many of the first `n` configurations of a run have a property. -/
def count (code : Code) (p : Config → Bool) (c : Config) (n : Nat) : Nat :=
  (List.range n).countP (fun i => p ((next code)^[i] c))

variable {p : Config → Bool}

@[simp] theorem count_zero : count code p c 0 = 0 := rfl

theorem count_succ (n : Nat) :
    count code p c (n + 1) = count code p c n + (p ((next code)^[n] c)).toNat := by
  simp only [count, List.range_succ, List.countP_append, List.countP_singleton]
  cases p ((next code)^[n] c) <;> rfl

theorem count_add (n k : Nat) :
    count code p c (n + k) = count code p c n + count code p ((next code)^[n] c) k := by
  induction k with
  | zero => simp
  | succ k ih =>
    rw [← Nat.add_assoc, count_succ, ih, count_succ, ← Function.iterate_add_apply,
      Nat.add_comm k n, Nat.add_assoc]

/-- Nothing is counted once a run has ended. -/
theorem count_eq_of_le (hp : ∀ c : Config, c.isExited = true → p c = false) {n m : Nat}
    (h : ((next code)^[n] c).isExited = true) (hle : n ≤ m) :
    count code p c m = count code p c n := by
  obtain ⟨k, rfl⟩ := Nat.exists_eq_add_of_le hle
  rw [count_add]
  have hzero : count code p ((next code)^[n] c) k = 0 := by
    unfold count
    rw [List.countP_eq_zero]
    intro i _
    rw [iterate_of_isExited h, hp _ h]
    simp
  omega

end Config

/-! ## Machines -/

namespace Machine

/-- The configuration that a machine is in. -/
def config (m : Machine) : Config where
  canvas := m.canvas
  cursor := m.cursor
  place :=
    match m.exitStatus? with
    | some status => .exit status
    | none => .jump m.line

variable {m m' : Machine}

theorem isExited_config (m : Machine) : m.config.isExited = m.isExited := by
  unfold Config.isExited config isExited
  cases m.exitStatus? <;> rfl

theorem place_of_isExited_eq_false (h : m.isExited = false) : m.config.place = .jump m.line := by
  have hnone : m.exitStatus? = none := by simpa [isExited] using h
  simp [config, hnone]

theorem exitStatus?_eq_none (h : m.isExited = false) : m.exitStatus? = none := by
  simpa [isExited] using h

/-- The configuration tells the status of a run. -/
theorem exitStatus?_congr (h : m.config = m'.config) : m.exitStatus? = m'.exitStatus? := by
  have hplace := congrArg Config.place h
  unfold config at hplace
  cases hm : m.exitStatus? <;> cases hm' : m'.exitStatus? <;> simp_all

/-- The configuration tells the line of a run that has not ended. -/
theorem line_congr (h : m.config = m'.config) (hm : m.isExited = false) : m.line = m'.line := by
  have hm' : m'.isExited = false := by rw [← isExited_config, ← h, isExited_config, hm]
  have hplace := congrArg Config.place h
  rw [place_of_isExited_eq_false hm, place_of_isExited_eq_false hm'] at hplace
  exact Target.jump.inj hplace

/-! ### One instruction -/

theorem program_tick (m : Machine) : m.tick.program = m.program := by
  obtain ⟨program, canvas, line, cursor, state, executed, coverage⟩ := m
  unfold tick
  dsimp only
  split
  · rfl
  · split <;> rfl

theorem executed_tick (m : Machine) : m.tick.executed = m.executed + 1 := by
  obtain ⟨program, canvas, line, cursor, state, executed, coverage⟩ := m
  unfold tick
  dsimp only
  split
  · rfl
  · split <;> rfl

/-- Executing an instruction is carrying out the action that the pixel
selects. -/
theorem config_tick (h : m.isExited = false) : m.tick.config = m.config.next m.program.code := by
  rw [Config.next_of_jump (place_of_isExited_eq_false h)]
  have hnone := exitStatus?_eq_none h
  have hwidth := m.config.width_painted
  have hheight := m.config.height_painted
  obtain ⟨program, canvas, line, cursor, state, executed, coverage⟩ := m
  simp only [Config.painted, Config.offset, config] at hwidth hheight
  simp only [tick, Config.perform, Config.painted, Config.offset, Config.pixel, Branch.action, config,
    hwidth, hheight]
  generalize program.code.action line _ = a
  generalize cursor.move? a.direction canvas.width canvas.height = moved
  cases moved with
  | none => rfl
  | some cursor' =>
    cases a.target with
    | exit status => rfl
    | jump next =>
      -- a jump leaves the state alone
      simp only [exitStatus?] at hnone ⊢
      rw [hnone]

/-! ### Runs -/

/-- The machine after a run of a given budget. -/
def after (m : Machine) (budget : Nat) : Machine :=
  (m.run budget).1

/-- Execute one instruction, unless the run has ended. -/
def advance (m : Machine) : Machine :=
  if m.isExited then m else m.tick

/-- A run that has not ended is begun. -/
def wake (m : Machine) : Machine :=
  if m.isExited then m else { m with state := .running }

theorem config_wake (m : Machine) : m.wake.config = m.config := by
  unfold wake
  split
  · rfl
  · next h =>
    have hnone : m.exitStatus? = none := exitStatus?_eq_none (by simpa using h)
    have hwoken : exitStatus? { m with state := .running } = none := rfl
    simp only [config, hnone, hwoken]

theorem isExited_wake (m : Machine) : m.wake.isExited = m.isExited := by
  rw [← isExited_config, config_wake, isExited_config]

theorem program_wake (m : Machine) : m.wake.program = m.program := by
  unfold wake
  split <;> rfl

theorem executed_wake (m : Machine) : m.wake.executed = m.executed := by
  unfold wake
  split <;> rfl

theorem coverage_wake (m : Machine) : m.wake.coverage = m.coverage := by
  unfold wake
  split <;> rfl

theorem config_advance (m : Machine) : m.advance.config = m.config.next m.program.code := by
  unfold advance
  split
  · next h => rw [Config.next_of_isExited (by rw [isExited_config, h])]
  · next h => exact config_tick (by simpa using h)

theorem advance_of_isExited (h : m.isExited = true) : m.advance = m := by
  simp [advance, h]

theorem state_of_isExited (h : m.isExited = true) : ∃ status, m.state = .exited status := by
  cases hs : m.state <;> simp_all [isExited, exitStatus?]

theorem isExited_of_state {status : Status} (h : m.state = .exited status) :
    m.isExited = true := by
  simp [isExited, exitStatus?, h]

theorem isExited_eq_false_of_state (h : ∀ status, m.state = .exited status → False) :
    m.isExited = false := by
  rw [Bool.eq_false_iff]
  intro hm
  obtain ⟨status, hstate⟩ := state_of_isExited hm
  exact h status hstate

/-- The loop of a step, for any breakpoints: it executes as many
instructions as it reports, each of them in a run that has not ended. -/
theorem steps_fst (breakpoints : List Nat) :
    ∀ (budget executed : Nat) (m : Machine), m.isExited = false →
      ∃ n, (steps breakpoints budget executed m).2.executed = executed + n ∧
        (steps breakpoints budget executed m).1 = advance^[n] m ∧
        ∀ i < n, (advance^[i] m).isExited = false
  | 0, executed, m, _ => ⟨0, rfl, rfl, by simp⟩
  | budget + 1, executed, m, hm => by
      have hadvance : m.advance = m.tick := by simp [advance, hm]
      rw [steps]
      split
      · exact ⟨1, rfl, hadvance.symm, by simpa using hm⟩
      · next hstate =>
        split
        · exact ⟨1, rfl, hadvance.symm, by simpa using hm⟩
        · obtain ⟨n, hcount, hfst, halive⟩ := steps_fst breakpoints budget (executed + 1) m.tick
            (isExited_eq_false_of_state hstate)
          refine ⟨n + 1, by omega, ?_, fun i hi => ?_⟩
          · rw [hfst, Function.iterate_succ_apply, hadvance]
          · cases i with
            | zero => exact hm
            | succ i =>
              rw [Function.iterate_succ_apply, hadvance]
              exact halive i (by omega)

/-- Without breakpoints, the loop executes as much as its budget allows. -/
theorem steps_nil :
    ∀ (budget executed : Nat) (m : Machine), m.isExited = false →
      (steps [] budget executed m).1 = advance^[budget] m
  | 0, executed, m, _ => rfl
  | budget + 1, executed, m, hm => by
      have hadvance : m.advance = m.tick := by simp [advance, hm]
      rw [steps, Function.iterate_succ_apply, hadvance]
      split
      · next status hstate =>
        have hfixed := advance_of_isExited (isExited_of_state hstate)
        exact (Function.iterate_fixed hfixed budget).symm
      · next hstate =>
        simpa using steps_nil budget (executed + 1) m.tick (isExited_eq_false_of_state hstate)

theorem step_of_isExited (h : m.isExited = true) (budget : Nat) (breakpoints : List Nat) :
    (m.step budget breakpoints).1 = m ∧ (m.step budget breakpoints).2.executed = 0 := by
  obtain ⟨status, hstate⟩ := state_of_isExited h
  simp [step, hstate]

theorem step_of_not_isExited (h : m.isExited = false) (budget : Nat) (breakpoints : List Nat) :
    m.step budget breakpoints = steps breakpoints budget 0 m.wake := by
  unfold step wake
  cases hs : m.state <;> simp_all [isExited, exitStatus?]

theorem after_eq_iterate (m : Machine) (n : Nat) : m.after n = advance^[n] m.wake := by
  unfold after run
  cases h : m.isExited with
  | true =>
    have hwake : m.wake = m := by simp [wake, h]
    rw [(step_of_isExited h n []).1, hwake, Function.iterate_fixed (advance_of_isExited h)]
  | false => rw [step_of_not_isExited h, steps_nil n 0 m.wake (by rw [isExited_wake, h])]

/-- A step leaves the machine as a run of as many instructions does. -/
theorem step_eq_after (m : Machine) (budget : Nat) (breakpoints : List Nat) :
    (m.step budget breakpoints).1 = m.after (m.step budget breakpoints).2.executed := by
  rw [after_eq_iterate]
  cases h : m.isExited with
  | true =>
    obtain ⟨hfst, hexecuted⟩ := step_of_isExited h budget breakpoints
    rw [hfst, hexecuted]
    simp [wake, h]
  | false =>
    rw [step_of_not_isExited h]
    obtain ⟨n, hcount, hfst, -⟩ := steps_fst breakpoints budget 0 m.wake (by rw [isExited_wake, h])
    rw [hfst, hcount, Nat.zero_add]

/-- Every instruction of a step is executed in a run that has not ended. -/
theorem isExited_of_lt_executed {m : Machine} {budget : Nat} {breakpoints : List Nat} {i : Nat}
    (hi : i < (m.step budget breakpoints).2.executed) : (m.after i).isExited = false := by
  rw [after_eq_iterate]
  cases h : m.isExited with
  | true => simp [(step_of_isExited h budget breakpoints).2] at hi
  | false =>
    rw [step_of_not_isExited h] at hi
    obtain ⟨n, hcount, -, halive⟩ :=
      steps_fst breakpoints budget 0 m.wake (by rw [isExited_wake, h])
    exact halive i (by omega)

theorem after_zero (m : Machine) : m.after 0 = m.wake := by
  rw [after_eq_iterate, Function.iterate_zero_apply]

theorem after_succ (m : Machine) (n : Nat) : m.after (n + 1) = (m.after n).advance := by
  rw [after_eq_iterate, after_eq_iterate, Function.iterate_succ_apply']

theorem program_advance (m : Machine) : m.advance.program = m.program := by
  unfold advance
  split
  · rfl
  · exact program_tick m

theorem program_after (m : Machine) (n : Nat) : (m.after n).program = m.program := by
  induction n with
  | zero => rw [after_zero, program_wake]
  | succ n ih => rw [after_succ, program_advance, ih]

/-- The configuration after a run. -/
theorem config_after (m : Machine) (n : Nat) :
    (m.after n).config = (Config.next m.program.code)^[n] m.config := by
  induction n with
  | zero =>
    rw [after_zero, config_wake]
    rfl
  | succ n ih =>
    rw [after_succ, config_advance, program_after, ih, Function.iterate_succ_apply']

/-- The counter after a run: one for each configuration on the way that had
not ended. -/
theorem executed_after (m : Machine) (n : Nat) :
    (m.after n).executed =
      m.executed + Config.count m.program.code (fun c => !c.isExited) m.config n := by
  induction n with
  | zero => rw [after_zero, executed_wake, Config.count_zero, Nat.add_zero]
  | succ n ih =>
    rw [after_succ, Config.count_succ, ← config_after, isExited_config, ← Nat.add_assoc, ← ih, advance]
    cases h : (m.after n).isExited with
    | true => rfl
    | false => exact executed_tick _

/-! ### Whatever is done with a machine -/

theorem config_reset (m : Machine) (canvas : Canvas) :
    (m.reset canvas).config = ⟨canvas, .origin, m.program.entry⟩ := by
  unfold reset
  cases m.program.entry <;> rfl

theorem config_start (p : Program) (canvas : Canvas) :
    (start p canvas).config = ⟨canvas, .origin, p.entry⟩ :=
  config_reset _ canvas

theorem program_reset (m : Machine) (canvas : Canvas) : (m.reset canvas).program = m.program := by
  unfold reset
  split <;> rfl

theorem program_start (p : Program) (canvas : Canvas) : (start p canvas).program = p :=
  program_reset _ canvas

theorem executed_start (p : Program) (canvas : Canvas) : (start p canvas).executed = 0 := by
  unfold start reset
  split <;> rfl

/-- What can be done with a machine. A run is a step without breakpoints. -/
inductive Operation where
  | reset (canvas : Canvas)
  | step (budget : Nat) (breakpoints : List Nat)
  | clearCoverage

/-- Whether an operation starts the program over. -/
def Operation.isReset : Operation → Bool
  | reset _ => true
  | _ => false

/-- Carry out one operation. -/
def apply (m : Machine) : Operation → Machine
  | .reset canvas => m.reset canvas
  | .step budget breakpoints => (m.step budget breakpoints).1
  | .clearCoverage => m.clearCoverage

/-- Carry out operations in order. -/
def perform (m : Machine) (operations : List Operation) : Machine :=
  operations.foldl apply m

theorem program_apply (m : Machine) (o : Operation) : (m.apply o).program = m.program := by
  cases o with
  | reset canvas => exact program_reset m canvas
  | step budget breakpoints =>
    rw [apply, step_eq_after]
    exact program_after _ _
  | clearCoverage => rfl

/-- An operation that does not start over only goes on with the run. -/
theorem config_apply {o : Operation} (h : o.isReset = false) (m : Machine) :
    ∃ n, (m.apply o).config = (Config.next m.program.code)^[n] m.config := by
  cases o with
  | reset canvas => simp [Operation.isReset] at h
  | step budget breakpoints =>
    rw [apply, step_eq_after]
    exact ⟨_, config_after _ _⟩
  | clearCoverage => exact ⟨0, rfl⟩

theorem program_perform (m : Machine) (operations : List Operation) :
    (m.perform operations).program = m.program := by
  induction operations generalizing m with
  | nil => rfl
  | cons o rest ih => exact (ih (m.apply o)).trans (program_apply m o)

theorem config_perform (m : Machine) {operations : List Operation}
    (h : ∀ o ∈ operations, o.isReset = false) :
    ∃ n, (m.perform operations).config = (Config.next m.program.code)^[n] m.config := by
  induction operations generalizing m with
  | nil => exact ⟨0, rfl⟩
  | cons o rest ih =>
    obtain ⟨n, hn⟩ := config_apply (h o List.mem_cons_self) m
    obtain ⟨k, hk⟩ := ih (m.apply o) (fun o' ho' => h o' (List.mem_cons_of_mem _ ho'))
    refine ⟨k + n, ?_⟩
    rw [Function.iterate_add_apply, ← hn, ← program_apply m o]
    exact hk

theorem valid_start {p : Program} (h : p.code.Sound) (canvas : Canvas) :
    (⟨canvas, .origin, p.entry⟩ : Config).Valid p.code where
  onCanvas := ⟨canvas.width_pos, canvas.height_pos⟩
  canRun := by
    intro line hline
    change p.entry = _ at hline
    rw [Program.entry_eq_landing h] at hline
    rcases p.code.landing_cases 0 with hexit | ⟨next, hjump, hrun⟩
    · simp [hexit] at hline
    · obtain rfl := Target.jump.inj (hjump.symm.trans hline)
      exact hrun

/-- Whatever is done with a machine, it stands on its canvas and on a line
that holds an instruction. -/
theorem valid_perform {p : Program} (h : p.code.Sound) {m : Machine} (hp : m.program = p)
    (hm : m.config.Valid p.code) (operations : List Operation) :
    (m.perform operations).config.Valid p.code := by
  induction operations generalizing m with
  | nil => exact hm
  | cons o rest ih =>
    refine ih ((program_apply m o).trans hp) ?_
    cases ho : o.isReset with
    | true =>
      cases o with
      | reset canvas =>
        rw [apply, config_reset, hp]
        exact valid_start h canvas
      | step budget breakpoints => simp [Operation.isReset] at ho
      | clearCoverage => simp [Operation.isReset] at ho
    | false =>
      obtain ⟨n, hn⟩ := config_apply ho m
      rw [hn, hp]
      exact hm.iterate h n

/-- A machine that was started with a program, whatever was done with it
since. -/
def Runs (m : Machine) (p : Program) : Prop :=
  ∃ canvas operations, m = (start p canvas).perform operations

theorem Runs.program_eq {p : Program} (h : m.Runs p) : m.program = p := by
  obtain ⟨canvas, operations, rfl⟩ := h
  rw [program_perform, program_start]

theorem Runs.valid {p : Program} (h : m.Runs p) (hp : p.code.Sound) : m.config.Valid p.code := by
  obtain ⟨canvas, operations, rfl⟩ := h
  refine valid_perform hp (program_start p canvas) ?_ operations
  rw [config_start]
  exact valid_start hp canvas

end Machine

end PixelTurtle
