/-
PixelTurtle.Proofs.Simulation — the passes keep every run.

A pass makes a code that is faster: one of its instructions does the work of
several. The two runs are compared through a pace, a strictly increasing
function `f` such that the fast run after `n` instructions is where the slow
one is after `f n`. From a pace alone follows that both runs end or neither
does, and that they end alike (`Config.Paced.exits_iff`,
`Config.Paced.eq_of_isExited`).

* `Program.fold_simulates` — folding: an instruction of the folded program
  is a chain of the program before.
* `Program.collapse_simulates` — collapsing, and beginning on the first line
  that holds an instruction: an instruction of the collapsed program is one
  of the linked program and the placeholders after it.
-/
import Mathlib.Order.WellFounded
import PixelTurtle.Proofs.Run

namespace PixelTurtle

/-! ## Pace -/

/-- Steps that can always be matched are matched in order. -/
theorem exists_strictMono_of_step {P : Nat → Nat → Prop} {k : Nat} (hstart : P 0 k)
    (hstep : ∀ n k, P n k → ∃ k', k < k' ∧ P (n + 1) k') :
    ∃ f : Nat → Nat, StrictMono f ∧ ∀ n, P n (f n) := by
  choose g hlt hg using hstep
  let pairs : (n : Nat) → { k // P n k } :=
    Nat.rec ⟨k, hstart⟩ fun n pair => ⟨g n pair.1 pair.2, hg n pair.1 pair.2⟩
  exact ⟨fun n => (pairs n).1, strictMono_nat_of_lt_succ fun n => hlt n _ (pairs n).2,
    fun n => (pairs n).2⟩

namespace Config

/-- The run of `fast` from `c` is at every step where the run of `slow` from
`d` is at its pace. -/
structure Paced (fast slow : Code) (c d : Config) (f : Nat → Nat) : Prop where
  strictMono : StrictMono f
  config : ∀ n, (next fast)^[n] c = (next slow)^[f n] d

namespace Paced

variable {fast slow : Code} {c d : Config} {f : Nat → Nat}

theorem exits_iff (h : Paced fast slow c d f) :
    (∃ n, ((next fast)^[n] c).isExited = true) ↔ ∃ n, ((next slow)^[n] d).isExited = true := by
  constructor
  · rintro ⟨n, hn⟩
    exact ⟨f n, h.config n ▸ hn⟩
  · rintro ⟨n, hn⟩
    refine ⟨n, ?_⟩
    rw [h.config n, iterate_eq_of_le hn (h.strictMono.le_apply)]
    exact hn

/-- Runs that have both ended ended alike. -/
theorem eq_of_isExited (h : Paced fast slow c d f) {n k : Nat}
    (hn : ((next fast)^[n] c).isExited = true) (hk : ((next slow)^[k] d).isExited = true) :
    (next fast)^[n] c = (next slow)^[k] d := by
  have hle : k ≤ f (max n k) := (Nat.le_max_right n k).trans h.strictMono.le_apply
  calc
    (next fast)^[n] c = (next fast)^[max n k] c := (iterate_eq_of_le hn (Nat.le_max_left n k)).symm
    _ = (next slow)^[f (max n k)] d := h.config _
    _ = (next slow)^[k] d := iterate_eq_of_le hk hle

/-- What is counted on the way to the ends compares as it does along the
way. -/
theorem count_of_isExited (h : Paced fast slow c d f) {p q : Config → Bool} {r : Nat → Nat → Prop}
    (hp : ∀ c : Config, c.isExited = true → p c = false)
    (hq : ∀ c : Config, c.isExited = true → q c = false)
    (hcount : ∀ n, r (count fast p c n) (count slow q d (f n))) {n k : Nat}
    (hn : ((next fast)^[n] c).isExited = true) (hk : ((next slow)^[k] d).isExited = true) :
    r (count fast p c n) (count slow q d k) := by
  have hle : k ≤ f (max n k) := (Nat.le_max_right n k).trans h.strictMono.le_apply
  rw [← count_eq_of_le hp hn (Nat.le_max_left n k), ← count_eq_of_le hq hk hle]
  exact hcount _

end Paced

/-- A pace is found instruction by instruction: it is enough that every
instruction of the fast code is at least one instruction of the slow code,
and that the counts of the two compare. -/
theorem exists_paced {fast slow : Code} {q : Config → Bool} {R : Nat → Nat → Prop}
    {I : Config → Prop} (hadd : ∀ {a b x}, R a b → R 1 x → R (a + 1) (b + x))
    (hq : ∀ c : Config, c.isExited = true → q c = false)
    (hkeeps : ∀ c, I c → I (c.next fast))
    (hstep : ∀ c, I c → c.isExited = false →
      ∃ j, (next slow)^[j + 1] c = c.next fast ∧ R 1 (count slow q c (j + 1)))
    {c d : Config} (hc : I c) {k : Nat} (hstart : (next slow)^[k] d = c)
    (hzero : R 0 (count slow q d k)) :
    ∃ f, Paced fast slow c d f ∧
      ∀ n, R (count fast (fun c => !c.isExited) c n) (count slow q d (f n)) := by
  have hI : ∀ n, I ((next fast)^[n] c) := Function.Iterate.rec I hc hkeeps
  obtain ⟨f, hmono, hf⟩ := exists_strictMono_of_step
    (P := fun n k => (next fast)^[n] c = (next slow)^[k] d ∧
      R (count fast (fun c => !c.isExited) c n) (count slow q d k))
    (k := k) ⟨hstart.symm, hzero⟩ (by
      rintro n k ⟨hconfig, hcount⟩
      rw [Function.iterate_succ_apply', count_succ]
      cases hexited : ((next fast)^[n] c).isExited with
      | true =>
        -- both runs have ended, and only the pace goes on
        refine ⟨k + 1, Nat.lt_succ_self k, ?_, ?_⟩
        · rw [next_of_isExited hexited, hconfig,
            iterate_eq_of_le (hconfig ▸ hexited) (Nat.le_succ k)]
        · rw [count_succ, ← hconfig, hq _ hexited]
          exact hcount
      | false =>
        obtain ⟨j, hj, hone⟩ := hstep _ (hI n) hexited
        refine ⟨k + (j + 1), by omega, ?_, ?_⟩
        · rw [← hj, hconfig, ← Function.iterate_add_apply, Nat.add_comm]
        · rw [count_add, ← hconfig]
          exact hadd hcount hone)
  exact ⟨f, ⟨hmono, fun n => (hf n).1⟩, fun n => (hf n).2⟩

end Config

/-! ## Chains -/

namespace Config

variable {code folded : Code} {c : Config}

/-- Executing a chain comes to the same as the action that it ends on. -/
theorem iterate_of_endsOn {b : Branch} {last : Action Target} (h : code.EndsOn b last) {c : Config}
    (hc : c.OnCanvas) (hplace : c.place = .jump b.line) (hpixel : c.pixel = b.color) :
    ∃ j, (next code)^[j + 1] c = c.perform last ∧
      ∀ i ≤ j, ((next code)^[i] c).isExited = false := by
  have halive : c.isExited = false := isExited_eq_false.mpr ⟨_, hplace⟩
  induction h generalizing c with
  | @here b _ =>
    refine ⟨0, ?_, fun i hi => ?_⟩
    · rw [Function.iterate_one, next_of_jump hplace, hpixel]
    · obtain rfl : i = 0 := by omega
      exact halive
  | @on b b' last hnext _ ih =>
    obtain ⟨hjump, hcolor⟩ := Branch.next?_eq_some_iff.mp hnext
    have hfirst : c.next code = ⟨c.painted (b.action code).write, c.cursor, .jump b'.line⟩ := by
      rw [next_of_jump hplace, hpixel]
      exact perform_of_stillJump? hjump
    obtain ⟨j, hj, hsteps⟩ := ih (c := c.next code)
      (by rw [next_of_jump hplace]; exact hc.perform _) (by rw [hfirst])
      (by rw [hfirst, pixel_painted hc, hpixel, hcolor])
      (by rw [hfirst]; rfl)
    refine ⟨j + 1, ?_, fun i hi => ?_⟩
    · rw [Function.iterate_succ_apply, hj, hfirst]
      exact (perform_carry c last _ _).symm
    · cases i with
      | zero => exact halive
      | succ i =>
        rw [Function.iterate_succ_apply]
        exact hsteps i (by omega)

/-- One instruction of a folded code is a chain of the code before. -/
theorem next_fold (haction : code.FoldsTo folded) (hc : c.OnCanvas) (halive : c.isExited = false) :
    ∃ j, (next code)^[j + 1] c = c.next folded ∧
      ∀ i ≤ j, ((next code)^[i] c).isExited = false := by
  obtain ⟨line, hplace⟩ := isExited_eq_false.mp halive
  rw [next_of_jump hplace]
  rcases haction ⟨c.pixel, line⟩ with hsame | hends
  · refine ⟨0, ?_, fun i hi => ?_⟩
    · rw [Function.iterate_one, next_of_jump hplace, hsame]
    · obtain rfl : i = 0 := by omega
      exact halive
  · exact iterate_of_endsOn hends hc hplace rfl

/-- Where every configuration has a property, all are counted. -/
theorem count_eq_self {p : Config → Bool} {n : Nat} (h : ∀ i < n, p ((next code)^[i] c) = true) :
    count code p c n = n := by
  unfold count
  rw [List.countP_eq_length.mpr (by simpa using h), List.length_range]

theorem OnCanvas.next (h : c.OnCanvas) : (c.next code).OnCanvas := by
  cases hp : c.place with
  | exit status => rwa [next_of_isExited (by simp [isExited, hp, Target.isExit])]
  | jump line =>
    rw [next_of_jump hp]
    exact h.perform _

/-- The run of a folded code is paced by the run of the code before, and
counts no more instructions. -/
theorem exists_paced_fold (haction : code.FoldsTo folded) (hc : c.OnCanvas) :
    ∃ f, Paced folded code c c f ∧ ∀ n,
      count folded (fun c => !c.isExited) c n ≤ count code (fun c => !c.isExited) c (f n) := by
  refine exists_paced (k := 0) (I := OnCanvas) Nat.add_le_add (by simp)
    (fun c hc => hc.next) ?_ hc rfl (Nat.le_refl 0)
  intro c hc halive
  obtain ⟨j, hj, hsteps⟩ := next_fold haction hc halive
  refine ⟨j, hj, ?_⟩
  rw [count_eq_self (n := j + 1)]
  · omega
  · intro i hi
    rw [hsteps i (by omega)]
    rfl

end Config

/-! ## Placeholders -/

namespace Config

variable {linked : Code} {c d : Config}

/-- Whether the next line to run holds an instruction. -/
def atInstruction (code : Code) (c : Config) : Bool :=
  match c.place with
  | .jump line => !code.isPlaceholder line
  | .exit _ => false

theorem atInstruction_of_isExited (code : Code) (c : Config) (h : c.isExited = true) :
    c.atInstruction code = false := by
  cases hp : c.place with
  | exit status => simp [atInstruction, hp]
  | jump line => simp [isExited, hp, Target.isExit] at h

theorem next_placeholder (hfalls : linked.FallsThrough) {line : Nat} (hplace : c.place = .jump line)
    (hp : linked.isPlaceholder line = true) :
    c.next linked = { c with place := linked.following line } := by
  rw [next_of_jump hplace, Branch.action, hfalls _ _ hp]
  rfl

/-- Placeholders are passed one by one, and none of them is counted. -/
theorem iterate_landing (hfalls : linked.FallsThrough) {line : Nat} (hlt : line < linked.size)
    (hplace : c.place = .jump line) :
    ∃ j, (next linked)^[j] c = { c with place := linked.landing line } ∧
      count linked (atInstruction linked) c j = 0 := by
  induction hk : linked.size - line generalizing line c with
  | zero => omega
  | succ k ih =>
    rw [Code.landing_of_lt hlt]
    cases hp : linked.isPlaceholder line with
    | false =>
      refine ⟨0, ?_, rfl⟩
      rw [Function.iterate_zero_apply, if_neg (by simp), ← hplace]
    | true =>
      have hfirst := next_placeholder hfalls hplace hp
      have hzero : count linked (atInstruction linked) c 1 = 0 := by
        simp [count_succ, atInstruction, hplace, hp]
      rw [if_pos rfl]
      by_cases hnext : line + 1 < linked.size
      · rw [Code.following, if_pos hnext] at hfirst
        obtain ⟨j, hj, hcount⟩ := ih (c := c.next linked) hnext (by rw [hfirst]) (by omega)
        refine ⟨1 + j, ?_, ?_⟩
        · rw [Nat.add_comm, Function.iterate_add_apply, Function.iterate_one, hj, hfirst]
        · rw [count_add, hzero, Function.iterate_one, hcount]
      · rw [Code.following, if_neg hnext] at hfirst
        refine ⟨1, ?_, hzero⟩
        rw [Function.iterate_one, hfirst, Code.landing_of_ge (by omega)]

theorem iterate_settle (hfalls : linked.FallsThrough) {t : Target}
    (ht : ∀ line, t = .jump line → line < linked.size) (hplace : c.place = t) :
    ∃ j, (next linked)^[j] c = { c with place := linked.settle t } ∧
      count linked (atInstruction linked) c j = 0 := by
  cases t with
  | exit status => exact ⟨0, by rw [Function.iterate_zero_apply, Code.settle, ← hplace], rfl⟩
  | jump line => exact iterate_landing hfalls (ht line rfl) hplace

/-- One instruction of a collapsed code is that instruction of the linked
code and the placeholders after it. -/
theorem next_collapse (h : linked.Linked) {line : Nat} (hplace : c.place = .jump line)
    (hrun : linked.CanRun line) :
    ∃ j, (next linked)^[j + 1] c = c.next linked.collapse ∧
      count linked (atInstruction linked) c (j + 1) = 1 := by
  have hone : count linked (atInstruction linked) c 1 = 1 := by
    simp [count_succ, atInstruction, hplace, hrun.2]
  rw [next_of_jump hplace, Branch.action, Code.collapse_action h.fallsThrough h.inRange]
  have hfirst : c.next linked = c.perform (linked.action line (Slot.of c.pixel)) :=
    next_of_jump hplace
  generalize ha : linked.action line (Slot.of c.pixel) = a at hfirst
  cases hmove : c.cursor.move? a.direction c.canvas.width c.canvas.height with
  | none =>
    refine ⟨0, ?_, hone⟩
    rw [Function.iterate_one, hfirst]
    simp [perform, hmove]
  | some cursor =>
    obtain ⟨j, hj, hcount⟩ := iterate_settle (c := c.next linked) h.fallsThrough
      (t := a.target) (fun next hnext => h.inRange line _ next (ha ▸ hnext))
      (by rw [hfirst]; simp [perform, hmove])
    refine ⟨j, ?_, ?_⟩
    · rw [Function.iterate_succ_apply, hj, hfirst]
      simp [perform, hmove]
    · rw [Nat.add_comm, count_add, hone, Function.iterate_one, hcount]

/-- The run of a collapsed code is paced by the run of the linked code, and
counts the same instructions. -/
theorem exists_paced_collapse (h : linked.Linked) (hc : c.Valid linked.collapse) {k : Nat}
    (hstart : (next linked)^[k] d = c) (hzero : count linked (atInstruction linked) d k = 0) :
    ∃ f, Paced linked.collapse linked c d f ∧ ∀ n,
      count linked.collapse (fun c => !c.isExited) c n =
        count linked (atInstruction linked) d (f n) := by
  have hkinds := Code.kinds_collapse h.fallsThrough.oneTarget
  refine exists_paced (I := Valid linked.collapse) (by omega) (atInstruction_of_isExited linked)
    (fun c hc => hc.next h.collapse) ?_ hc hstart hzero.symm
  intro c hc halive
  obtain ⟨line, hplace⟩ := isExited_eq_false.mp halive
  have hrun := (Code.canRun_congr hkinds line).mp (hc.canRun line hplace)
  obtain ⟨j, hj, hone⟩ := next_collapse h hplace hrun
  exact ⟨j, hj, hone.symm⟩

end Config

/-! ## Machines -/

namespace Machine

/-- The runs of two machines both end or both go on forever, and they end
with the same status, drawing and cursor. -/
structure EndsAlike (m m' : Machine) : Prop where
  exits_iff : (∃ n, (m.after n).isExited = true) ↔ ∃ k, (m'.after k).isExited = true
  exitStatus : ∀ n k, (m.after n).isExited = true → (m'.after k).isExited = true →
    (m.after n).exitStatus? = (m'.after k).exitStatus?
  canvas : ∀ n k, (m.after n).isExited = true → (m'.after k).isExited = true →
    (m.after n).canvas = (m'.after k).canvas
  cursor : ∀ n k, (m.after n).isExited = true → (m'.after k).isExited = true →
    (m.after n).cursor = (m'.after k).cursor

variable {m m' : Machine} {f : Nat → Nat}

theorem isExited_after (m : Machine) (n : Nat) :
    (m.after n).isExited = ((Config.next m.program.code)^[n] m.config).isExited := by
  rw [← isExited_config, config_after]

theorem config_after_paced
    (h : Config.Paced m.program.code m'.program.code m.config m'.config f) (n : Nat) :
    (m.after n).config = (m'.after (f n)).config := by
  rw [config_after, config_after, h.config]

theorem endsAlike_of_paced
    (h : Config.Paced m.program.code m'.program.code m.config m'.config f) : m.EndsAlike m' := by
  have heq : ∀ n k, (m.after n).isExited = true → (m'.after k).isExited = true →
      (m.after n).config = (m'.after k).config := by
    intro n k hn hk
    rw [isExited_after] at hn hk
    rw [config_after, config_after]
    exact h.eq_of_isExited hn hk
  refine ⟨?_, ?_, ?_, ?_⟩
  · simp only [isExited_after]
    exact h.exits_iff
  · exact fun n k hn hk => exitStatus?_congr (heq n k hn hk)
  · exact fun n k hn hk => congrArg Config.canvas (heq n k hn hk)
  · exact fun n k hn hk => congrArg Config.cursor (heq n k hn hk)

/-- A machine ends as another does, executes no more instructions, and passes
in the same order through states that the other passes through. -/
structure Abridges (fast slow : Machine) : Prop where
  endsAlike : fast.EndsAlike slow
  executed_le : ∀ n k, (fast.after n).isExited = true → (slow.after k).isExited = true →
    (fast.after n).executed ≤ (slow.after k).executed
  passesThrough : ∃ f : Nat → Nat, StrictMono f ∧ ∀ n, (fast.after n).isExited = false →
    (slow.after (f n)).isExited = false ∧ (fast.after n).line = (slow.after (f n)).line ∧
      (fast.after n).cursor = (slow.after (f n)).cursor ∧
      (fast.after n).canvas = (slow.after (f n)).canvas

theorem abridges_of_paced
    (h : Config.Paced m.program.code m'.program.code m.config m'.config f)
    (hexecuted : m.executed = m'.executed)
    (hcount : ∀ n, Config.count m.program.code (fun c => !c.isExited) m.config n ≤
      Config.count m'.program.code (fun c => !c.isExited) m'.config (f n)) :
    m.Abridges m' := by
  refine ⟨endsAlike_of_paced h, ?_, f, h.strictMono, ?_⟩
  · intro n k hn hk
    rw [isExited_after] at hn hk
    rw [executed_after, executed_after, hexecuted]
    exact Nat.add_le_add_left (h.count_of_isExited (by simp) (by simp) hcount hn hk) _
  · intro n hn
    have hconfig := config_after_paced h n
    refine ⟨?_, line_congr hconfig hn, congrArg Config.cursor hconfig,
      congrArg Config.canvas hconfig⟩
    rw [← isExited_config, ← hconfig, isExited_config, hn]

/-- A machine on the first line of its program, placeholder or not. -/
def atFirstLine (program : Program) (canvas : Canvas) : Machine :=
  ⟨program, canvas, 0, .origin, .idle, 0, .none program.size⟩

/-- How many of the lines that a run of a given budget executes hold an
instruction. -/
def instructionsRun (m : Machine) (budget : Nat) : Nat :=
  (List.range budget).countP (fun i =>
    !(m.after i).isExited && !m.program.code.isPlaceholder (m.after i).line)

theorem atInstruction_config (code : Code) (m : Machine) :
    m.config.atInstruction code = (!m.isExited && !code.isPlaceholder m.line) := by
  cases h : m.isExited with
  | true => rw [Config.atInstruction_of_isExited _ _ (by rw [isExited_config, h])]; rfl
  | false => simp [Config.atInstruction, place_of_isExited_eq_false h]

theorem instructionsRun_eq (m : Machine) (n : Nat) :
    m.instructionsRun n =
      Config.count m.program.code (Config.atInstruction m.program.code) m.config n := by
  simp only [instructionsRun, Config.count, ← atInstruction_config, config_after]

/-- A machine ends as another does that also executes placeholders, and has
executed at every point the instructions that the other has. -/
structure Omits (m reference : Machine) : Prop where
  endsAlike : m.EndsAlike reference
  executed_eq : ∀ n k, (m.after n).isExited = true → (reference.after k).isExited = true →
    (m.after n).executed = reference.instructionsRun k
  keepsUp : ∃ f : Nat → Nat, StrictMono f ∧ ∀ n,
    (m.after n).executed = reference.instructionsRun (f n) ∧
      (m.after n).exitStatus? = (reference.after (f n)).exitStatus? ∧
      (m.after n).cursor = (reference.after (f n)).cursor ∧
      (m.after n).canvas = (reference.after (f n)).canvas

theorem omits_of_paced
    (h : Config.Paced m.program.code m'.program.code m.config m'.config f)
    (hexecuted : m.executed = 0)
    (hcount : ∀ n, Config.count m.program.code (fun c => !c.isExited) m.config n =
      Config.count m'.program.code (Config.atInstruction m'.program.code) m'.config (f n)) :
    m.Omits m' := by
  refine ⟨endsAlike_of_paced h, ?_, f, h.strictMono, ?_⟩
  · intro n k hn hk
    rw [isExited_after] at hn hk
    rw [executed_after, instructionsRun_eq, hexecuted, Nat.zero_add]
    exact h.count_of_isExited (by simp) (Config.atInstruction_of_isExited _) hcount hn hk
  · intro n
    have hconfig := config_after_paced h n
    refine ⟨?_, exitStatus?_congr hconfig, congrArg Config.cursor hconfig,
      congrArg Config.canvas hconfig⟩
    rw [executed_after, instructionsRun_eq, hexecuted, Nat.zero_add]
    exact hcount n

end Machine

/-! ## Compiled programs -/

namespace Program

variable {dialect : Dialect} {strictness : Option Strictness} {source : String}

/-- Without folding, whatever can be linked is compiled. -/
theorem compile_unfolded {d : Draft} {linked : Code}
    (hd : Draft.ofSource dialect source = .ok d) (hlinked : d.link = .ok linked) :
    compile ⟨dialect, false, strictness⟩ source =
      .ok ⟨linked.collapse, d.labels, d.count, dialect⟩ :=
  compile_eq_ok_iff.mpr ⟨d, linked, linked.collapse, hd, hlinked, rfl, rfl⟩

/-- Where a run begins depends on the kinds of the lines alone. -/
theorem entry_congr {p q : Program} (hp : p.code.Sound) (hq : q.code.Sound)
    (h : p.code.kinds = q.code.kinds) : p.entry = q.entry := by
  rw [entry_eq_landing hp, entry_eq_landing hq, Code.landing_congr h]

/-- Folding changes no outcome and no order of events. -/
theorem fold_simulates {p : Program} (h : compile ⟨dialect, true, strictness⟩ source = .ok p) :
    ∃ q, compile ⟨dialect, false, strictness⟩ source = .ok q ∧
      ∀ canvas, (Machine.start p canvas).Abridges (Machine.start q canvas) := by
  obtain ⟨d, linked, folded, hd, hlinked, hfold, rfl⟩ := compile_eq_ok_iff.mp h
  rw [passes_of_optimize rfl] at hfold
  have hsound := (linked_of_ofSource hd hlinked).collapse
  have hentry : (⟨folded, d.labels, d.count, dialect⟩ : Program).entry =
      (⟨linked.collapse, d.labels, d.count, dialect⟩ : Program).entry :=
    entry_congr (hsound.fold hfold) hsound (Code.kinds_fold hsound.inRange hfold)
  refine ⟨_, compile_unfolded hd hlinked, fun canvas => ?_⟩
  have hvalid := Machine.valid_start (p := ⟨linked.collapse, d.labels, d.count, dialect⟩)
    hsound canvas
  obtain ⟨f, hpaced, hcount⟩ :=
    Config.exists_paced_fold (Code.fold_action hsound.inRange hfold) hvalid.onCanvas
  apply Machine.abridges_of_paced (f := f)
  · rwa [Machine.program_start, Machine.program_start, Machine.config_start, Machine.config_start,
      hentry]
  · rw [Machine.executed_start, Machine.executed_start]
  · rwa [Machine.program_start, Machine.program_start, Machine.config_start, Machine.config_start,
      hentry]

/-- A line that paints and stays, before one that paints over it and moves. -/
theorem fold_simulates_two_lines :
    ∃ p, compile ⟨.palette, true, none⟩
        "a: if white write red goto b else exit 3\nb: if white exit 4 else write blue right goto a" =
          .ok p ∧
      ∃ q, compile ⟨.palette, false, none⟩
          "a: if white write red goto b else exit 3\nb: if white exit 4 else write blue right goto a" =
            .ok q ∧
        ∀ canvas, (Machine.start p canvas).Abridges (Machine.start q canvas) := by
  obtain ⟨p, hp⟩ : ∃ p, compile ⟨.palette, true, none⟩
      "a: if white write red goto b else exit 3\nb: if white exit 4 else write blue right goto a" =
        .ok p := ⟨_, rfl⟩
  exact ⟨p, hp, fold_simulates hp⟩

/-- Collapsing placeholders and beginning behind them changes no outcome and
no instruction. -/
theorem collapse_simulates {d : Draft} {linked : Code}
    (hd : Draft.ofSource dialect source = .ok d) (hlinked : d.link = .ok linked)
    (strictness : Option Strictness) :
    ∃ p, compile ⟨dialect, false, strictness⟩ source = .ok p ∧
      ∀ canvas, (Machine.start p canvas).Omits
        (Machine.atFirstLine ⟨linked, d.labels, d.count, dialect⟩ canvas) := by
  refine ⟨_, compile_unfolded hd hlinked, fun canvas => ?_⟩
  have h := linked_of_ofSource hd hlinked
  have hpos : 0 < linked.size := by
    rw [Draft.size_of_link hlinked, (Draft.ofSource_spec hd).2.1]
    omega
  have hentry :
      (⟨linked.collapse, d.labels, d.count, dialect⟩ : Program).entry = linked.landing 0 := by
    rw [entry_eq_landing h.collapse]
    exact Code.landing_congr (Code.kinds_collapse h.fallsThrough.oneTarget) 0
  have hvalid := Machine.valid_start (p := ⟨linked.collapse, d.labels, d.count, dialect⟩)
    h.collapse canvas
  rw [hentry] at hvalid
  -- the placeholders in front are passed before the first instruction
  obtain ⟨k, hstart, hzero⟩ := Config.iterate_landing (c := ⟨canvas, .origin, .jump 0⟩)
    h.fallsThrough hpos rfl
  obtain ⟨f, hpaced, hcount⟩ := Config.exists_paced_collapse h hvalid hstart hzero
  apply Machine.omits_of_paced (f := f)
  · rwa [Machine.program_start, Machine.config_start, hentry]
  · exact Machine.executed_start _ _
  · rwa [Machine.program_start, Machine.config_start, hentry]

/-- Placeholders in front, between, behind, and a jump onto one. -/
theorem collapse_simulates_blank_lines :
    ∃ d linked, Draft.ofSource .palette "\na: right goto b\n\nb:\nleft exit 3\n" = .ok d ∧
      d.link = .ok linked ∧
      ∃ p, compile ⟨.palette, false, some .strict⟩ "\na: right goto b\n\nb:\nleft exit 3\n" = .ok p ∧
        ∀ canvas, (Machine.start p canvas).Omits
          (Machine.atFirstLine ⟨linked, d.labels, d.count, .palette⟩ canvas) := by
  obtain ⟨d, hd⟩ : ∃ d, Draft.ofSource .palette "\na: right goto b\n\nb:\nleft exit 3\n" = .ok d :=
    ⟨_, rfl⟩
  obtain ⟨linked, hlinked⟩ : ∃ linked, d.link = .ok linked := by
    obtain rfl := Except.ok.inj hd
    exact ⟨_, rfl⟩
  exact ⟨d, linked, hd, hlinked, collapse_simulates hd hlinked (some .strict)⟩

end Program

end PixelTurtle
