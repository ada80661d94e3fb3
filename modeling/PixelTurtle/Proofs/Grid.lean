/-
PixelTurtle.Proofs.Grid — a machine draws on a grid of cells.

The machine keeps its pixels in one row and finds them by offset, and it moves
its cursor by comparing columns and rows with the size of the canvas. `Grid` is
the machine that this is meant to be: its memory is a function from cells to
colors, and a move leads to the neighbor of a cell, if there is one.

* `Grid.next`, `Grid.run` — one instruction, and as many as a budget allows.
* `Config.Shows` — what the canvas, the cursor and the place of a machine show
  of a grid. `Config.Shows.next` is its step lemma, `Machine.step_shows` its run
  lemma.
* `Canvas.offset_injective` — distinct cells have distinct offsets, so a write
  changes the cell under the cursor and no other.
* `Program.run_shows_grid` — a run of a machine is the run of the grid it shows.
-/
import PixelTurtle.Proofs.Slicing
import Mathlib.Logic.Function.Basic

namespace PixelTurtle

/-! ## The grid -/

/-- A cell of a grid: its column, and its row counted up from the bottom. -/
abbrev Cell (width height : Nat) :=
  Fin width × Fin height

/-- How far a direction leads, to the right and up. -/
def Direction.shift : Direction → Int × Int
  | nowhere => (0, 0)
  | up => (0, 1)
  | down => (0, -1)
  | left => (-1, 0)
  | right => (1, 0)

variable {width height : Nat}

namespace Cell

/-- A column or row moved by a distance, if it stays on the grid. -/
def slide? {size : Nat} (i : Fin size) (distance : Int) : Option (Fin size) :=
  if h : 0 ≤ i + distance ∧ i + distance < size then some ⟨(i + distance).toNat, by omega⟩
  else none

/-- The cell that a direction leads to, if it is on the grid. -/
def neighbor? (cell : Cell width height) (direction : Direction) : Option (Cell width height) := do
  let x ← slide? cell.1 direction.shift.1
  let y ← slide? cell.2 direction.shift.2
  return (x, y)

/-- The cursor that stands on a cell. -/
def toCursor (cell : Cell width height) : Cursor :=
  ⟨cell.1, cell.2⟩

theorem slide?_zero {size : Nat} (i : Fin size) : slide? i 0 = some i := by
  rw [slide?, dif_pos (by omega)]
  simp

theorem slide?_one {size : Nat} (i : Fin size) :
    slide? i 1 = if h : i.val + 1 < size then some ⟨i + 1, h⟩ else none := by
  unfold slide?
  split
  · rw [dif_pos (by omega)]
    rfl
  · rw [dif_neg (by omega)]

theorem slide?_neg_one {size : Nat} (i : Fin size) :
    slide? i (-1) = if h : 0 < i.val then some ⟨i - 1, by omega⟩ else none := by
  unfold slide?
  split
  · rw [dif_pos (by omega), Option.some.injEq, Fin.mk.injEq]
    omega
  · rw [dif_neg (by omega)]

/-- A cursor moves to the neighbor of its cell. -/
theorem move?_toCursor (cell : Cell width height) (direction : Direction) :
    cell.toCursor.move? direction width height = (cell.neighbor? direction).map toCursor := by
  cases direction <;>
    simp only [Cursor.move?, neighbor?, Direction.shift, toCursor, slide?_zero, slide?_one,
      slide?_neg_one]
  case nowhere => rfl
  all_goals split <;> next h => simp [h, toCursor]

end Cell

/-- A machine on a grid: the colors of its cells, the cell it stands on, and the
line that runs next or the exit taken. -/
structure Grid (width height : Nat) where
  memory : Cell width height → Color
  cursor : Cell width height
  place : Target

namespace Grid

/-- The memory after a write to the cell under the cursor. -/
def written (g : Grid width height) : Option Color → Cell width height → Color
  | some color => Function.update g.memory g.cursor color
  | none => g.memory

/-- Carry out an action: write, move to the neighbor, and go on. Where there is
no neighbor the run ends with status 2 on the cell it stands on. -/
def perform (g : Grid width height) (a : Action Target) : Grid width height :=
  match g.cursor.neighbor? a.direction with
  | some cell => ⟨g.written a.write, cell, a.target⟩
  | none => ⟨g.written a.write, g.cursor, .exit 2⟩

/-- Execute the instruction of the next line, with the action that the cell
under the cursor selects, unless the run has ended. -/
def next (code : Code) (g : Grid width height) : Grid width height :=
  match g.place with
  | .exit _ => g
  | .jump line =>
      g.perform (code.action line (if g.memory g.cursor = .white then .white else .color))

/-- Execute up to `budget` instructions, and count them. -/
def run (code : Code) : Nat → Grid width height → Grid width height × Nat
  | 0, g => (g, 0)
  | budget + 1, g =>
      if g.place.isExit then (g, 0)
      else
        let (last, executed) := run code budget (g.next code)
        (last, executed + 1)

variable {code : Code} {g : Grid width height}

/-- An instruction leaves every cell alone but the one it stands on. -/
theorem memory_next {cell : Cell width height} (h : cell ≠ g.cursor) :
    (g.next code).memory cell = g.memory cell := by
  have hwritten : ∀ write, g.written write cell = g.memory cell := by
    intro write
    cases write with
    | none => rfl
    | some color => exact Function.update_of_ne h color g.memory
  unfold next
  split
  · rfl
  · unfold perform
    split <;> exact hwritten _

theorem run_of_isExit (h : g.place.isExit = true) (budget : Nat) : g.run code budget = (g, 0) := by
  cases budget with
  | zero => rfl
  | succ budget => rw [run, if_pos h]

theorem run_succ (h : g.place.isExit = false) (budget : Nat) :
    g.run code (budget + 1) =
      (((g.next code).run code budget).1, ((g.next code).run code budget).2 + 1) := by
  rw [run, if_neg (by simp [h])]

end Grid

/-! ## What a machine shows of a grid -/

/-- Distinct cells of a canvas are kept in distinct places. -/
theorem Canvas.offset_injective {c : Canvas} {x y x' y' : Nat} (hx : x < c.width)
    (hx' : x' < c.width) (h : c.offset x y = c.offset x' y') : x = x' ∧ y = y' := by
  unfold offset at h
  rw [Nat.mul_comm y, Nat.mul_comm y'] at h
  have hmod := congrArg (· % c.width) h
  have hdiv := congrArg (· / c.width) h
  simp only [Nat.mul_add_mod, Nat.mod_eq_of_lt hx, Nat.mod_eq_of_lt hx'] at hmod
  simp only [Nat.mul_add_div c.width_pos, Nat.div_eq_of_lt hx, Nat.div_eq_of_lt hx',
    Nat.add_zero] at hdiv
  exact ⟨hmod, hdiv⟩

namespace Config

/-- The canvas is as large as the grid and shows its memory, and cursor and
place are those of the grid. -/
structure Shows (c : Config) (g : Grid width height) : Prop where
  width_eq : c.canvas.width = width
  height_eq : c.canvas.height = height
  memory : ∀ cell : Cell width height, c.canvas.get? cell.1 cell.2 = some (g.memory cell)
  cursor : c.cursor = g.cursor.toCursor
  place : c.place = g.place

/-- The grid that a canvas, a cursor and a place show. -/
def grid (c : Config) (h : c.OnCanvas) : Grid c.canvas.width c.canvas.height where
  memory cell := c.canvas.pixelAt (c.canvas.offset cell.1 cell.2)
  cursor := (⟨c.cursor.x, h.1⟩, ⟨c.cursor.y, h.2⟩)
  place := c.place

theorem shows_grid (c : Config) (h : c.OnCanvas) : c.Shows (c.grid h) where
  width_eq := rfl
  height_eq := rfl
  memory cell := by
    rw [Canvas.get?, if_pos ⟨cell.1.isLt, cell.2.isLt⟩]
    rfl
  cursor := rfl
  place := rfl

variable {c : Config} {g : Grid width height} {code : Code}

namespace Shows

theorem onCanvas (h : c.Shows g) : c.OnCanvas := by
  rw [OnCanvas, h.cursor, h.width_eq, h.height_eq]
  exact ⟨g.cursor.1.isLt, g.cursor.2.isLt⟩

theorem pixelAt (h : c.Shows g) (cell : Cell width height) :
    c.canvas.pixelAt (c.canvas.offset cell.1 cell.2) = g.memory cell := by
  have hcell := h.memory cell
  rw [Canvas.get?, h.width_eq, h.height_eq, if_pos ⟨cell.1.isLt, cell.2.isLt⟩] at hcell
  exact Option.some.inj hcell

theorem pixel (h : c.Shows g) : c.pixel = g.memory g.cursor := by
  rw [Config.pixel, offset, h.cursor]
  exact h.pixelAt g.cursor

/-- A write changes the cell under the cursor and no other. -/
theorem written (h : c.Shows g) (write : Option Color) (cell : Cell width height) :
    (c.painted write).get? cell.1 cell.2 = some (g.written write cell) := by
  cases write with
  | none => exact h.memory cell
  | some color =>
    have hin : cell.1 < (c.painted (some color)).width ∧
        cell.2 < (c.painted (some color)).height := by
      rw [width_painted, height_painted, h.width_eq, h.height_eq]
      exact ⟨cell.1.isLt, cell.2.isLt⟩
    rw [Canvas.get?, if_pos hin, Option.some.injEq]
    change (c.canvas.put c.offset color).pixelAt (c.canvas.offset cell.1 cell.2) =
      Function.update g.memory g.cursor color cell
    have hoffset : c.offset = c.canvas.offset g.cursor.1 g.cursor.2 := by
      rw [offset, h.cursor]
      rfl
    by_cases heq : cell = g.cursor
    · subst heq
      rw [Function.update_self, ← hoffset]
      exact c.canvas.pixelAt_put_self (c.canvas.offset_lt h.onCanvas.1 h.onCanvas.2) color
    · rw [Function.update_of_ne heq, ← h.pixelAt cell, hoffset]
      refine c.canvas.pixelAt_put_of_ne (fun hsame => heq ?_) color
      obtain ⟨hx, hy⟩ := Canvas.offset_injective (h.width_eq ▸ g.cursor.1.isLt)
        (h.width_eq ▸ cell.1.isLt) hsame
      exact Prod.ext (Fin.ext hx.symm) (Fin.ext hy.symm)

theorem perform (h : c.Shows g) (a : Action Target) : (c.perform a).Shows (g.perform a) := by
  have hmove : c.cursor.move? a.direction c.canvas.width c.canvas.height =
      (g.cursor.neighbor? a.direction).map Cell.toCursor := by
    rw [h.cursor, h.width_eq, h.height_eq, Cell.move?_toCursor]
  rw [Config.perform, hmove, Grid.perform]
  cases g.cursor.neighbor? a.direction with
  | none =>
    exact ⟨(width_painted c _).trans h.width_eq, (height_painted c _).trans h.height_eq,
      h.written a.write, h.cursor, rfl⟩
  | some cell =>
    exact ⟨(width_painted c _).trans h.width_eq, (height_painted c _).trans h.height_eq,
      h.written a.write, rfl, rfl⟩

/-- The machine and the grid execute the same instruction. -/
theorem next (h : c.Shows g) : (c.next code).Shows (g.next code) := by
  rw [Config.next, Grid.next, ← h.place]
  cases c.place with
  | exit status => exact h
  | jump line =>
    have hslot : Slot.of c.pixel = if g.memory g.cursor = .white then .white else .color := by
      rw [h.pixel, Slot.of]
      simp only [Color.isWhite_iff]
    dsimp only
    rw [← hslot]
    exact h.perform _

end Shows

end Config

/-! ## Runs -/

namespace Machine

variable {m : Machine} {g : Grid width height}

theorem place_config_eq_exit_iff {status : Status} :
    m.config.place = .exit status ↔ m.state = .exited status := by
  cases hstate : m.state <;> simp [config, exitStatus?, hstate]

/-- The place of the grid tells whether the run has ended. -/
theorem isExit_of_shows (h : m.config.Shows g) : g.place.isExit = m.isExited := by
  rw [← h.place, ← isExited_config]
  rfl

/-- A run that is begun is the run of the grid it shows, by induction on the
budget. -/
theorem step_shows (budget : Nat) :
    ∀ (m : Machine) (g : Grid width height), m.isExited = false → m.wake = m →
      m.config.Shows g →
        (m.step budget []).1.config.Shows (g.run m.program.code budget).1 ∧
          (m.step budget []).2.executed = (g.run m.program.code budget).2 := by
  induction budget with
  | zero =>
    intro m g halive hwake h
    rw [step_of_not_isExited halive, hwake]
    exact ⟨h, rfl⟩
  | succ budget ih =>
    intro m g halive hwake h
    have hnext : m.tick.config.Shows (g.next m.program.code) := by
      rw [config_tick halive]
      exact h.next
    rw [Grid.run_succ ((isExit_of_shows h).trans halive)]
    rcases step_succ halive hwake budget [] with
      ⟨status, hstate, hstep⟩ | ⟨-, hline, -⟩ | ⟨halive', -, hstep⟩
    · have hexit := (isExit_of_shows hnext).trans (isExited_of_state hstate)
      rw [hstep, Grid.run_of_isExit hexit]
      exact ⟨hnext, rfl⟩
    · simp at hline
    · obtain ⟨hshows, hexecuted⟩ := ih m.tick _ halive' (wake_tick halive hwake) hnext
      rw [program_tick] at hshows hexecuted
      rw [hstep]
      exact ⟨hshows, by rw [countOne, hexecuted, Nat.add_comm]⟩

/-- A run is the run of the grid that the machine shows, and its report tells
the exit that the grid took. -/
theorem run_shows (halive : m.isExited = false) (h : m.config.Shows g) (budget : Nat) :
    (m.run budget).1.config.Shows (g.run m.program.code budget).1 ∧
      (m.run budget).2.executed = (g.run m.program.code budget).2 ∧
      ∀ status, (m.run budget).2.exit = some status ↔
        (g.run m.program.code budget).1.place = .exit status := by
  have hwoken : m.wake.isExited = false := by rw [isExited_wake, halive]
  have hrun : m.run budget = m.wake.step budget [] := by
    rw [run, step_of_not_isExited halive, step_of_not_isExited hwoken, wake_wake]
  obtain ⟨hshows, hexecuted⟩ :=
    step_shows budget m.wake g hwoken m.wake_wake (by rwa [config_wake])
  rw [program_wake, ← hrun] at hshows hexecuted
  refine ⟨hshows, hexecuted, fun status => ?_⟩
  rw [← hshows.place, place_config_eq_exit_iff]
  exact (step_reports m budget []).exit_iff status

/-- Only the cell under the cursor of the first machine can differ. -/
structure KeepsRest (m m' : Machine) : Prop where
  program : m'.program = m.program
  width_eq : m'.canvas.width = m.canvas.width
  height_eq : m'.canvas.height = m.canvas.height
  cells : ∀ x y, (⟨x, y⟩ : Cursor) ≠ m.cursor → m'.canvas.get? x y = m.canvas.get? x y

/-- One instruction leaves all but the cell under the cursor alone. -/
theorem keepsRest_advance (h : m.config.OnCanvas) : m.KeepsRest m.advance := by
  have hshows := m.config.shows_grid h
  have hnext : m.advance.config.Shows ((m.config.grid h).next m.program.code) := by
    rw [config_advance]
    exact hshows.next
  refine ⟨program_advance m, hnext.width_eq, hnext.height_eq, fun x y hne => ?_⟩
  by_cases hin : x < m.canvas.width ∧ y < m.canvas.height
  · have hcell : ((⟨x, hin.1⟩, ⟨y, hin.2⟩) : Cell m.canvas.width m.canvas.height) ≠
        (m.config.grid h).cursor := by
      intro heq
      exact hne (congrArg Cell.toCursor heq)
    exact (hnext.memory (⟨x, hin.1⟩, ⟨y, hin.2⟩)).trans
      ((congrArg some (Grid.memory_next hcell)).trans (hshows.memory (⟨x, hin.1⟩, ⟨y, hin.2⟩)).symm)
  · have hout : ¬ (x < m.advance.canvas.width ∧ y < m.advance.canvas.height) := by
      rwa [show m.advance.canvas.width = m.canvas.width from hnext.width_eq,
        show m.advance.canvas.height = m.canvas.height from hnext.height_eq]
    rw [Canvas.get?, Canvas.get?, if_neg hin, if_neg hout]

end Machine

namespace Program

/-- Whatever was done with a machine that was started with a compiled program,
while its run goes on it shows a grid, and any run of it executes as many
instructions as the grid does and leads to where the grid is then. Each
instruction leaves the program, the size of the canvas and every cell but one as
they are. -/
theorem run_shows_grid {options : CompileOptions} {source : String} {p : Program}
    (h : compile options source = .ok p) {m : Machine} (hm : m.Runs p)
    (halive : m.isExited = false) :
    ∃ g : Grid m.canvas.width m.canvas.height, m.config.Shows g ∧
      (∀ budget, (m.run budget).1.config.Shows (g.run p.code budget).1 ∧
        (m.run budget).2.executed = (g.run p.code budget).2 ∧
        ∀ status, (m.run budget).2.exit = some status ↔
          (g.run p.code budget).1.place = .exit status) ∧
      ∀ n, (m.after n).KeepsRest (m.after (n + 1)) := by
  have hsound := sound_of_compile h
  have hvalid := hm.valid hsound
  have hshows := m.config.shows_grid hvalid.onCanvas
  refine ⟨m.config.grid hvalid.onCanvas, hshows, fun budget => ?_, fun n => ?_⟩
  · have hrun := Machine.run_shows halive hshows budget
    rwa [hm.program_eq] at hrun
  · have hafter : (m.after n).config.Valid p.code := by
      rw [Machine.config_after, hm.program_eq]
      exact hvalid.iterate hsound n
    rw [Machine.after_succ]
    exact Machine.keepsRest_advance hafter.onCanvas

/-- A machine that has written at the top of a canvas writes once more and
leaves it at the right. -/
theorem run_shows_grid_corner :
    ∃ p canvas m,
      compile ⟨.palette, true, none⟩ "a: write red up goto b\nb: write blue right goto b" = .ok p ∧
      Canvas.blank 2 2 = .ok canvas ∧
      m = (Machine.start p canvas).perform [.step 2 []] ∧ m.Runs p ∧ m.isExited = false ∧
      ∃ g : Grid m.canvas.width m.canvas.height, m.config.Shows g ∧
        (m.run 9).2 = ⟨1, some 2, false⟩ ∧
        (m.run 9).1.config.Shows (g.run p.code 9).1 ∧ (g.run p.code 9).2 = 1 ∧
        (g.run p.code 9).1.place = .exit 2 ∧ (m.after 0).KeepsRest (m.after 1) := by
  obtain ⟨p, canvas, hp, hcanvas, halive, hreport⟩ : ∃ p canvas,
      compile ⟨.palette, true, none⟩ "a: write red up goto b\nb: write blue right goto b" = .ok p ∧
      Canvas.blank 2 2 = .ok canvas ∧
      ((Machine.start p canvas).perform [.step 2 []]).isExited = false ∧
      (((Machine.start p canvas).perform [.step 2 []]).run 9).2 = ⟨1, some 2, false⟩ :=
    ⟨_, _, rfl, rfl, rfl, rfl⟩
  have hruns : ((Machine.start p canvas).perform [.step 2 []]).Runs p := ⟨canvas, _, rfl⟩
  obtain ⟨g, hshows, hrun, hkeeps⟩ := run_shows_grid hp hruns halive
  obtain ⟨hlast, hexecuted, hexit⟩ := hrun 9
  rw [hreport] at hexecuted hexit
  exact ⟨p, canvas, _, hp, hcanvas, rfl, hruns, halive, g, hshows, hreport, hlast,
    hexecuted.symm, (hexit 2).mp rfl, hkeeps 0⟩

end Program

end PixelTurtle
