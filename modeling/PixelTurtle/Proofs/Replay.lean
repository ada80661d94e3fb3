/-
PixelTurtle.Proofs.Replay — after a reset, a debugging session replays like a
new one.

Whatever was done before, `reset` goes back to the canvas of the start. What it
does not undo is the coverage, which nothing shows, and the breakpoints, of which
only the set matters and not the order they were given in:

* `DebugSession.Alike` — two sessions that differ in nothing else.
* `DebugSession.Alike.respond`, `DebugSession.Alike.answer` — such sessions say
  the same to every command and to every script.
* `DebugSession.inForce` — the breakpoints that a script leads to, read off its
  words.
* `DebugSession.play_after_reset` — the commands after a reset are answered as
  in a session that begins with the breakpoints then in force.
-/
import Mathlib.Data.Finset.Dedup
import PixelTurtle.Proofs.Run
import PixelTurtle.Terminal.Debugger

namespace PixelTurtle

/-! ## Machines that differ in their coverage -/

namespace Machine

variable {m m' : Machine} {breakpoints breakpoints' : List Nat}

/-- The two machines differ in their coverage at most. -/
def Alike (m m' : Machine) : Prop :=
  ∃ coverage, m' = { m with coverage := coverage }

theorem Alike.tick (h : m.Alike m') : m.tick.Alike m'.tick := by
  obtain ⟨coverage, rfl⟩ := h
  refine ⟨coverage.cover m.line (Slot.of m.pixel), ?_⟩
  obtain ⟨program, canvas, line, cursor, state, executed, before⟩ := m
  simp only [Machine.tick, pixel]
  generalize program.code.action line _ = a
  generalize applyWrite canvas _ a.write = painted
  cases cursor.move? a.direction painted.width painted.height with
  | none => rfl
  | some moved => cases a.target <;> rfl

/-- The loop of a step asks the breakpoints for members only, and the coverage
for nothing. -/
theorem Alike.steps (hsame : ∀ line, line ∈ breakpoints ↔ line ∈ breakpoints') :
    ∀ (budget executed : Nat) {m m' : Machine}, m.Alike m' →
      (Machine.steps breakpoints budget executed m).1.Alike
          (Machine.steps breakpoints' budget executed m').1 ∧
        (Machine.steps breakpoints budget executed m).2 =
          (Machine.steps breakpoints' budget executed m').2
  | 0, executed, m, m', h => ⟨h, rfl⟩
  | budget + 1, executed, m, m', h => by
      have htick := h.tick
      have hrest := Alike.steps hsame budget (executed + 1) htick
      have hstate : m'.tick.state = m.tick.state := by obtain ⟨_, heq⟩ := htick; rw [heq]
      have hstop : breakpoints'.contains m'.tick.line = breakpoints.contains m.tick.line := by
        obtain ⟨_, heq⟩ := htick
        rw [heq, Bool.eq_iff_iff, List.contains_iff_mem, List.contains_iff_mem, hsame]
      rw [Machine.steps, Machine.steps, hstate, hstop]
      split
      · exact ⟨htick, rfl⟩
      · split
        · exact ⟨htick, rfl⟩
        · exact hrest

theorem Alike.step (hsame : ∀ line, line ∈ breakpoints ↔ line ∈ breakpoints') (h : m.Alike m')
    (budget : Nat) :
    (m.step budget breakpoints).1.Alike (m'.step budget breakpoints').1 ∧
      (m.step budget breakpoints).2 = (m'.step budget breakpoints').2 := by
  obtain ⟨coverage, rfl⟩ := h
  simp only [Machine.step]
  split
  · exact ⟨⟨coverage, rfl⟩, rfl⟩
  · exact Alike.steps hsame budget 0 ⟨coverage, rfl⟩

theorem canvas_start (p : Program) (canvas : Canvas) : (start p canvas).canvas = canvas := by
  unfold start Machine.reset
  split <;> rfl

/-- A reset forgets all but the program and the coverage. -/
theorem Alike.reset (h : m.program = m'.program) (canvas : Canvas) :
    (m.reset canvas).Alike (m'.reset canvas) := by
  refine ⟨m'.coverage, ?_⟩
  unfold Machine.reset
  rw [h]
  split <;> rfl

end Machine

/-- The step ended by itself: on an exit or a breakpoint. -/
def StepReport.stopped (r : StepReport) : Bool :=
  r.exit.isSome || r.breakpoint

namespace Terminal

namespace DebugSession

/-! ## Sessions that say the same -/

variable {s s' : DebugSession} {frames frames' : Nat}

/-- The two sessions differ at most in the coverage, and in the order and the
repetitions of their breakpoints. -/
structure Alike (s s' : DebugSession) : Prop where
  machine : s.machine.Alike s'.machine
  initial : s.initial = s'.initial
  breakpoints : ∀ line, line ∈ s.breakpoints ↔ line ∈ s'.breakpoints

theorem current_alike {m m' : Machine} (h : m.Alike m') : current m = current m' := by
  obtain ⟨coverage, rfl⟩ := h
  rfl

theorem report_alike {m m' : Machine} (h : m.Alike m') (r : StepReport) :
    report m r = report m' r := by
  obtain ⟨coverage, rfl⟩ := h
  rfl

theorem paintMachine_alike {m m' : Machine} (h : m.Alike m') :
    paintMachine m = paintMachine m' := by
  obtain ⟨coverage, rfl⟩ := h
  rfl

theorem Alike.listing (h : s.Alike s') : s.listing = s'.listing := by
  have hmarker : s.marker = s'.marker := by
    funext line
    have hcontains : s.breakpoints.contains line = s'.breakpoints.contains line := by
      rw [Bool.eq_iff_iff, List.contains_iff_mem, List.contains_iff_mem, h.breakpoints]
    obtain ⟨_, hm⟩ := h.machine
    rw [marker, marker, hcontains, hm]
  obtain ⟨_, hm⟩ := h.machine
  rw [DebugSession.listing, DebugSession.listing, hmarker, hm]

theorem Alike.code (h : s.Alike s') : s.code = s'.code := by
  obtain ⟨_, hm⟩ := h.machine
  rw [DebugSession.code, DebugSession.code, hm]
  rfl

theorem mem_addBreakpoint (breakpoints : List Nat) (line other : Nat) :
    other ∈ addBreakpoint breakpoints line ↔ other = line ∨ other ∈ breakpoints := by
  unfold addBreakpoint
  split
  · next hmem =>
    have hline : line ∈ breakpoints := List.contains_iff_mem.mp hmem
    exact ⟨.inr, fun hother => hother.elim (· ▸ hline) id⟩
  · exact List.mem_cons

section

variable {breakpoints breakpoints' : List Nat} {m : Machine}

theorem resumeMachine_of_stopped (h : (m.step frame breakpoints).2.stopped = true)
    (frames : Nat) : resumeMachine breakpoints frames m = m.step frame breakpoints := by
  cases frames with
  | zero => rfl
  | succ frames =>
    rw [StepReport.stopped] at h
    simp only [resumeMachine, h, if_true]

theorem resumeMachine_of_not_stopped (h : (m.step frame breakpoints).2.stopped = false)
    (frames : Nat) :
    resumeMachine breakpoints (frames + 1) m =
      resumeMachine breakpoints frames (m.step frame breakpoints).1 := by
  rw [StepReport.stopped] at h
  simp only [resumeMachine, h, Bool.false_eq_true, if_false]

/-- A run that stops by itself does so after the same frame, whenever the next
interrupt would have come. -/
theorem resumeMachine_alike (hsame : ∀ line, line ∈ breakpoints ↔ line ∈ breakpoints') :
    ∀ (frames frames' : Nat) {m m' : Machine}, m.Alike m' →
      (resumeMachine breakpoints frames m).2.stopped = true →
      (resumeMachine breakpoints' frames' m').2.stopped = true →
      (resumeMachine breakpoints frames m).1.Alike (resumeMachine breakpoints' frames' m').1 ∧
        (resumeMachine breakpoints frames m).2 = (resumeMachine breakpoints' frames' m').2 := by
  intro frames
  induction frames with
  | zero =>
    intro frames' m m' h hstop _
    have hstep := Machine.Alike.step hsame h frame
    rw [resumeMachine_of_stopped (hstep.2 ▸ hstop) frames']
    exact hstep
  | succ frames ih =>
    intro frames' m m' h hstop hstop'
    have hstep := Machine.Alike.step hsame h frame
    cases hfirst : (m.step frame breakpoints).2.stopped with
    | true =>
      rw [resumeMachine_of_stopped hfirst, resumeMachine_of_stopped (hstep.2 ▸ hfirst)]
      exact hstep
    | false =>
      have hfirst' : (m'.step frame breakpoints').2.stopped = false := hstep.2 ▸ hfirst
      cases frames' with
      | zero => exact absurd hstop' (by rw [resumeMachine, hfirst']; simp)
      | succ frames' =>
        rw [resumeMachine_of_not_stopped hfirst] at hstop ⊢
        rw [resumeMachine_of_not_stopped hfirst'] at hstop' ⊢
        exact ih frames' hstep.1 hstop hstop'

end

/-- The command is no `continue`, or one that stops by itself. -/
def stopsItself (frames : Nat) (s : DebugSession) (command : DebugCommand) : Bool :=
  command != .resume || (resumeMachine s.breakpoints frames s.machine).2.stopped

/-- Alike sessions give the same answer to every command and stay alike. -/
theorem Alike.respond (h : s.Alike s') (command : DebugCommand)
    (hstop : s.stopsItself frames command = true)
    (hstop' : s'.stopsItself frames' command = true) :
    (s.respond frames command).1.Alike (s'.respond frames' command).1 ∧
      (s.respond frames command).2 = (s'.respond frames' command).2 := by
  cases command with
  | step count =>
    obtain ⟨hmachine, hreport⟩ := Machine.Alike.step h.breakpoints h.machine count
    refine ⟨⟨hmachine, h.initial, h.breakpoints⟩, ?_⟩
    simp only [DebugSession.respond, hreport]
    exact report_alike hmachine _
  | resume =>
    obtain ⟨hmachine, hreport⟩ :=
      resumeMachine_alike h.breakpoints frames frames' h.machine hstop hstop'
    refine ⟨⟨hmachine, h.initial, h.breakpoints⟩, ?_⟩
    simp only [DebugSession.respond, hreport]
    exact report_alike hmachine _
  | setBreakpoint line =>
    refine ⟨⟨h.machine, h.initial, fun other => ?_⟩, rfl⟩
    simp [DebugSession.respond, mem_addBreakpoint, h.breakpoints]
  | dropBreakpoint line =>
    refine ⟨⟨h.machine, h.initial, fun other => ?_⟩, rfl⟩
    simp [DebugSession.respond, removeBreakpoint, h.breakpoints]
  | reset =>
    have hprogram : s.machine.program = s'.machine.program := by
      obtain ⟨_, hm⟩ := h.machine
      rw [hm]
    have hreset := Machine.Alike.reset hprogram s.initial
    simp only [DebugSession.respond, ← h.initial]
    exact ⟨⟨hreset, rfl, h.breakpoints⟩, by rw [current_alike hreset]⟩
  | list => exact ⟨h, h.listing⟩
  | whereabouts => exact ⟨h, by simp only [DebugSession.respond, current_alike h.machine]⟩
  | canvas => exact ⟨h, paintMachine_alike h.machine⟩
  | badCount fault => exact ⟨h, rfl⟩
  | quit => exact ⟨h, rfl⟩
  | help => exact ⟨h, rfl⟩

/-! ## Scripts -/

/-- Every `continue` of the script stops by itself. -/
def uninterrupted (frames : Nat) (s : DebugSession) : List (Option String) → Bool
  | [] => true
  | none :: _ => true
  | some line :: rest =>
      match DebugCommand.ofLine? line with
      | none => s.uninterrupted frames rest
      | some .quit => true
      | some command =>
          s.stopsItself frames command && (s.respond frames command).1.uninterrupted frames rest

/-- Answer a line that is blank or holds a command other than `quit`. -/
def hear (frames : Nat) (s : DebugSession) (line : String) : DebugSession × String :=
  match DebugCommand.ofLine? line with
  | none => (s, "")
  | some command => s.respond frames command

section

variable {line : String}

theorem reply_quit (h : DebugCommand.ofLine? line = some .quit) :
    s.reply frames line = .left := by
  rw [reply, h]

theorem answer_quit (h : DebugCommand.ofLine? line = some .quit) (rest : List (Option String)) :
    s.answer frames (some line :: rest) = ⟨[""], [line], s⟩ := by
  rw [DebugSession.answer, reply_quit h]

/-- A line that does not end the session is ignored, which `hear` shows as no
output, or answered as `hear` answers it. -/
theorem reply_cases (frames : Nat) (s : DebugSession)
    (h : DebugCommand.ofLine? line ≠ some .quit) :
    (s.reply frames line = .ignored ∧ s.hear frames line = (s, "")) ∨
      s.reply frames line = .answered (s.hear frames line).1 (s.hear frames line).2 := by
  rw [reply, hear]
  split
  · next hread => exact .inl ⟨rfl, by rw [hread]⟩
  · next hquit => exact absurd hquit h
  · next hread => exact .inr (by rw [hread])

/-- A line that does not end the session is answered, and the rest after it. -/
theorem answer_cons (frames : Nat) (s : DebugSession)
    (h : DebugCommand.ofLine? line ≠ some .quit) (rest : List (Option String)) :
    (s.answer frames (some line :: rest)).outputs =
        (s.hear frames line).2 :: ((s.hear frames line).1.answer frames rest).outputs ∧
      (s.answer frames (some line :: rest)).session =
        ((s.hear frames line).1.answer frames rest).session := by
  rw [DebugSession.answer]
  obtain ⟨hreply, hhear⟩ | hreply := reply_cases frames s h
  · rw [hreply, hhear]
    exact ⟨rfl, rfl⟩
  · rw [hreply]
    exact ⟨rfl, rfl⟩

theorem uninterrupted_cons (h : DebugCommand.ofLine? line ≠ some .quit)
    (rest : List (Option String)) :
    s.uninterrupted frames (some line :: rest) =
      ((DebugCommand.ofLine? line).all (s.stopsItself frames) &&
        (s.hear frames line).1.uninterrupted frames rest) := by
  rw [uninterrupted, hear]
  split
  · next hread => simp only [hread, Option.all_none, Bool.true_and]
  · next hquit => exact absurd hquit h
  · next hread => simp only [hread, Option.all_some]

theorem Alike.hear (h : s.Alike s')
    (hstop : (DebugCommand.ofLine? line).all (s.stopsItself frames) = true)
    (hstop' : (DebugCommand.ofLine? line).all (s'.stopsItself frames') = true) :
    (s.hear frames line).1.Alike (s'.hear frames' line).1 ∧
      (s.hear frames line).2 = (s'.hear frames' line).2 := by
  unfold DebugSession.hear
  cases hread : DebugCommand.ofLine? line with
  | none => exact ⟨h, rfl⟩
  | some command =>
    rw [hread] at hstop hstop'
    exact h.respond command hstop hstop'

end

/-- Alike sessions give the same answers to every script. -/
theorem Alike.answer (script : List (Option String)) :
    ∀ {s s' : DebugSession}, s.Alike s' → s.uninterrupted frames script = true →
      s'.uninterrupted frames' script = true →
      (s.answer frames script).session.Alike (s'.answer frames' script).session ∧
        (s.answer frames script).outputs = (s'.answer frames' script).outputs := by
  induction script with
  | nil => exact fun h _ _ => ⟨h, rfl⟩
  | cons entry rest ih =>
    intro s s' h hs hs'
    cases entry with
    | none => exact ⟨h, rfl⟩
    | some line =>
      by_cases hquit : DebugCommand.ofLine? line = some .quit
      · rw [answer_quit hquit, answer_quit hquit]
        exact ⟨h, rfl⟩
      · rw [uninterrupted_cons hquit, Bool.and_eq_true] at hs hs'
        obtain ⟨hnext, houtput⟩ := h.hear hs.1 hs'.1
        obtain ⟨hsession, houtputs⟩ := ih hnext hs.2 hs'.2
        have hcons := answer_cons frames s hquit rest
        have hcons' := answer_cons frames' s' hquit rest
        rw [hcons.1, hcons.2, hcons'.1, hcons'.2, houtput, houtputs]
        exact ⟨hsession, rfl⟩

/-- The session that lines without `quit` lead to. -/
def hearAll (frames : Nat) (s : DebugSession) (lines : List String) : DebugSession :=
  lines.foldl (fun s line => (s.hear frames line).1) s

section

variable {lines : List String}

/-- Lines without `quit` are answered one by one, and then the rest. -/
theorem answer_append (frames : Nat) (s : DebugSession)
    (hquit : ∀ line ∈ lines, DebugCommand.ofLine? line ≠ some .quit)
    (rest : List (Option String)) :
    (s.answer frames (lines.map some ++ rest)).outputs.drop lines.length =
        ((s.hearAll frames lines).answer frames rest).outputs ∧
      (s.answer frames (lines.map some ++ rest)).session =
        ((s.hearAll frames lines).answer frames rest).session := by
  induction lines generalizing s with
  | nil => exact ⟨rfl, rfl⟩
  | cons line lines ih =>
    rw [List.forall_mem_cons] at hquit
    obtain ⟨houtputs, hsession⟩ := answer_cons frames s hquit.1 (lines.map some ++ rest)
    rw [List.map_cons, List.cons_append, houtputs, hsession]
    exact ih (s.hear frames line).1 hquit.2

theorem uninterrupted_append (hquit : ∀ line ∈ lines, DebugCommand.ofLine? line ≠ some .quit)
    {rest : List (Option String)}
    (h : s.uninterrupted frames (lines.map some ++ rest) = true) :
    (s.hearAll frames lines).uninterrupted frames rest = true := by
  induction lines generalizing s with
  | nil => exact h
  | cons line lines ih =>
    rw [List.forall_mem_cons] at hquit
    rw [List.map_cons, List.cons_append, uninterrupted_cons hquit.1, Bool.and_eq_true] at h
    exact ih hquit.2 h.2

end

/-! ## The breakpoints in force -/

/-- What a line does to a set of breakpoints: `break n` adds line `n - 1` to it
and `delete n` removes that line, where `n` is a number above 0. -/
def adjust (breakpoints : Finset Nat) (line : String) : Finset Nat :=
  match Text.words line.toList with
  | name :: number :: _ =>
      match Text.readNat Text.max64 number with
      | .ok n =>
          if n = 0 then breakpoints
          else if String.ofList name ∈ ["b", "break"] then insert (n - 1) breakpoints
          else if String.ofList name ∈ ["d", "delete"] then breakpoints.erase (n - 1)
          else breakpoints
      | .error _ => breakpoints
  | _ => breakpoints

/-- The breakpoints after some lines. -/
def inForce (breakpoints : Finset Nat) (lines : List String) : Finset Nat :=
  lines.foldl adjust breakpoints

/-- What a command does to the breakpoints. -/
def adjustBy (breakpoints : Finset Nat) : DebugCommand → Finset Nat
  | .setBreakpoint line => insert line breakpoints
  | .dropBreakpoint line => breakpoints.erase line
  | _ => breakpoints

theorem breakpoints_respond (frames : Nat) (s : DebugSession) (command : DebugCommand) :
    (s.respond frames command).1.breakpoints.toFinset =
      adjustBy s.breakpoints.toFinset command := by
  cases command with
  | setBreakpoint line =>
    ext other
    simp [respond, adjustBy, mem_addBreakpoint]
  | dropBreakpoint line =>
    ext other
    simp [respond, adjustBy, removeBreakpoint, and_comm]
  | _ => rfl

/-- The words `break` and `delete`, with a number above 0, are the only ones that
mean a change of the breakpoints. -/
theorem adjustBy_ofWords (breakpoints : Finset Nat) (name : String)
    (argument : Option (Except Text.NumeralFault Nat)) :
    adjustBy breakpoints (DebugCommand.ofWords name argument) =
      match argument with
      | some (.ok n) =>
          if n = 0 then breakpoints
          else if name ∈ ["b", "break"] then insert (n - 1) breakpoints
          else if name ∈ ["d", "delete"] then breakpoints.erase (n - 1)
          else breakpoints
      | _ => breakpoints := by
  by_cases hadd : name ∈ ["b", "break"]
  · have hname : name = "b" ∨ name = "break" := by simpa using hadd
    rcases hname with rfl | rfl <;> rcases argument with _ | _ | _ | n <;> rfl
  · by_cases hremove : name ∈ ["d", "delete"]
    · have hname : name = "d" ∨ name = "delete" := by simpa using hremove
      rcases hname with rfl | rfl <;> rcases argument with _ | _ | _ | n <;> rfl
    · -- any other name means none of the two commands, whatever its argument
      have hother : adjustBy breakpoints (DebugCommand.ofWords name argument) = breakpoints := by
        simp only [List.mem_cons, List.not_mem_nil, or_false] at hadd hremove
        rcases argument with _ | _ | n <;>
          · simp only [DebugCommand.ofWords, Bool.or_eq_true, decide_eq_true_eq, hadd, hremove,
              if_false, apply_ite (adjustBy breakpoints)]
            simp [adjustBy]
      rw [hother]
      split <;> simp [hadd, hremove]

theorem breakpoints_hear (frames : Nat) (s : DebugSession) (line : String) :
    (s.hear frames line).1.breakpoints.toFinset = adjust s.breakpoints.toFinset line := by
  unfold hear adjust DebugCommand.ofLine?
  cases Text.words line.toList with
  | nil => rfl
  | cons name rest =>
    simp only [breakpoints_respond, adjustBy_ofWords]
    cases rest with
    | nil => rfl
    | cons number _ =>
      simp only [List.head?_cons, Option.map_some]
      cases Text.readNat Text.max64 number <;> rfl

/-- The breakpoints after some lines are those that the words of the lines say. -/
theorem breakpoints_hearAll (frames : Nat) (lines : List String) (s : DebugSession) :
    (s.hearAll frames lines).breakpoints.toFinset = inForce s.breakpoints.toFinset lines := by
  induction lines generalizing s with
  | nil => rfl
  | cons line lines ih =>
    rw [hearAll, inForce, List.foldl_cons, List.foldl_cons, ← breakpoints_hear frames s line]
    exact ih _

/-! ## After a reset -/

theorem program_resumeMachine (breakpoints : List Nat) (frames : Nat) (m : Machine) :
    (resumeMachine breakpoints frames m).1.program = m.program := by
  induction frames generalizing m with
  | zero => rw [resumeMachine, Machine.step_eq_after, Machine.program_after]
  | succ frames ih =>
    simp only [resumeMachine]
    split
    · rw [Machine.step_eq_after, Machine.program_after]
    · rw [ih, Machine.step_eq_after, Machine.program_after]

/-- A session holds on to its program and to its first canvas. -/
theorem hear_keeps (frames : Nat) (s : DebugSession) (line : String) :
    (s.hear frames line).1.machine.program = s.machine.program ∧
      (s.hear frames line).1.initial = s.initial := by
  unfold hear
  cases DebugCommand.ofLine? line with
  | none => exact ⟨rfl, rfl⟩
  | some command =>
    cases command with
    | step count =>
      refine ⟨?_, rfl⟩
      simp only [DebugSession.respond, Machine.step_eq_after, Machine.program_after]
    | resume => exact ⟨program_resumeMachine s.breakpoints frames s.machine, rfl⟩
    | reset => exact ⟨Machine.program_reset s.machine s.initial, rfl⟩
    | _ => exact ⟨rfl, rfl⟩

theorem hearAll_keeps (frames : Nat) (lines : List String) (s : DebugSession) :
    (s.hearAll frames lines).machine.program = s.machine.program ∧
      (s.hearAll frames lines).initial = s.initial := by
  induction lines generalizing s with
  | nil => exact ⟨rfl, rfl⟩
  | cons line lines ih =>
    obtain ⟨hprogram, hinitial⟩ := hear_keeps frames s line
    obtain ⟨hprogram', hinitial'⟩ := ih (s.hear frames line).1
    exact ⟨hprogram'.trans hprogram, hinitial'.trans hinitial⟩

/-- A reset leads to where a session on the same program and canvas begins. -/
theorem alike_reset {p : Program} {canvas : Canvas} {breakpoints : List Nat}
    (hprogram : s.machine.program = p) (hinitial : s.initial = canvas)
    (hsame : s.breakpoints.toFinset = breakpoints.toFinset) :
    (s.respond frames .reset).1.Alike (start (.start p canvas) breakpoints) := by
  refine ⟨?_, hinitial.trans (Machine.canvas_start p canvas).symm, fun line => ?_⟩
  · subst hinitial
    exact Machine.Alike.reset hprogram s.initial
  · rw [← List.mem_toFinset, ← List.mem_toFinset]
    exact iff_of_eq (congrArg (line ∈ ·) hsame)

/-- The commands after a reset are answered, and the session ends, as in a new
session on the same program and canvas that begins with the breakpoints in force
at the reset. Those are the ones of the beginning with what `break` added and
`delete` removed. How many frames go by before an interrupt would be seen does
not matter where none is. -/
theorem play_after_reset (p : Program) (canvas : Canvas) (breakpoints : List Nat)
    (earlier : List String) (later : List (Option String)) (frames frames' : Nat)
    (hquit : ∀ line ∈ earlier, DebugCommand.ofLine? line ≠ some .quit)
    (hstop : (start (.start p canvas) breakpoints).uninterrupted frames
      (earlier.map some ++ some "reset" :: later) = true) :
    ((start (.start p canvas) breakpoints).answer frames
        (earlier.map some)).session.breakpoints.toFinset = inForce breakpoints.toFinset earlier ∧
      ∀ breakpoints', breakpoints'.toFinset = inForce breakpoints.toFinset earlier →
        (start (.start p canvas) breakpoints').uninterrupted frames' later = true →
        ((start (.start p canvas) breakpoints).play frames
              (earlier.map some ++ some "reset" :: later)).outputs.drop (earlier.length + 2) =
            ((start (.start p canvas) breakpoints').play frames' later).outputs.drop 1 ∧
          ((start (.start p canvas) breakpoints).play frames
              (earlier.map some ++ some "reset" :: later)).session.code =
            ((start (.start p canvas) breakpoints').play frames' later).session.code := by
  have hread : DebugCommand.ofLine? "reset" = some .reset := by decide
  have hreset : DebugCommand.ofLine? "reset" ≠ some .quit := by decide
  set first := start (.start p canvas) breakpoints
  have hforce := breakpoints_hearAll frames earlier first
  refine ⟨?_, fun breakpoints' hsame hstop' => ?_⟩
  · have hearlier := (answer_append frames first hquit []).2
    rw [List.append_nil] at hearlier
    rw [hearlier]
    exact hforce
  · obtain ⟨hprogram, hinitial⟩ := hearAll_keeps frames earlier first
    have hcanvas : first.initial = canvas := Machine.canvas_start p canvas
    have halike : ((first.hearAll frames earlier).respond frames .reset).1.Alike
        (start (.start p canvas) breakpoints') :=
      alike_reset (hprogram.trans (Machine.program_start p canvas)) (hinitial.trans hcanvas)
        (hforce.trans hsame.symm)
    have hrest := uninterrupted_append hquit hstop
    rw [uninterrupted_cons hreset, Bool.and_eq_true, hear, hread] at hrest
    obtain ⟨hsession, houtputs⟩ := halike.answer later hrest.2 hstop'
    obtain ⟨houtputs₁, hsession₁⟩ := answer_append frames first hquit (some "reset" :: later)
    obtain ⟨houtputs₂, hsession₂⟩ := answer_cons frames (first.hearAll frames earlier) hreset later
    rw [hear, hread] at houtputs₂ hsession₂
    constructor
    · calc
        _ = ((first.answer frames (earlier.map some ++ some "reset" :: later)).outputs.drop
              earlier.length).drop 1 := by rw [List.drop_drop]; rfl
        _ = (((first.hearAll frames earlier).respond frames .reset).1.answer frames
              later).outputs := by rw [houtputs₁, houtputs₂]; rfl
        _ = _ := houtputs
    · calc
        _ = (((first.hearAll frames earlier).respond frames .reset).1.answer frames
              later).session.code := by rw [← hsession₂, ← hsession₁]; rfl
        _ = _ := hsession.code

/-- A breakpoint is set and the one of the beginning removed, and the program runs
into the new one; after the reset it does so again and then runs over the edge. -/
theorem play_after_reset_breakpoint :
    let earlier := ["b 3", "step 2", " ", "delete 2", "x", "c", "step no"]
    let later := [some "list", some "c", some "continue", some "w", some "quit", some "s"]
    ∃ p canvas,
      Program.compile ⟨.palette, false, none⟩ "a: write red right\ngoto b\nb: up goto a" = .ok p ∧
      Canvas.ofPixels 2 1 #[.white, .white] = .ok canvas ∧
      inForce [1].toFinset earlier = [2].toFinset ∧
      let replayed :=
        (start (.start p canvas) [1]).play 0 (earlier.map some ++ some "reset" :: later)
      let fresh := (start (.start p canvas) [2]).play 5 later
      (replayed.outputs.drop 9 = fresh.outputs.drop 1 ∧
        replayed.session.code = fresh.session.code) ∧
      fresh.outputs.drop 1 =
        [">   1 a: write red right goto 2\n    2 goto 3\n*   3 b: up goto 1\n",
          "\x1b[41m  \x1b[0m\x1b[47;30m[]\x1b[0m\nbreakpoint, line 3\n" ++
            "2 instructions, 3 b: up goto 1   cursor 1,0\n",
          "\x1b[41m  \x1b[0m\x1b[47;30m[]\x1b[0m\n1 instructions, exited with 2\n",
          "exited with 2\n",
          ""] ∧
      fresh.session.code = 2 := by
  intro earlier later
  have hquit : ∀ line ∈ earlier, DebugCommand.ofLine? line ≠ some .quit := by decide
  have hforce : inForce [1].toFinset earlier = [2].toFinset := by decide
  refine ⟨_, _, rfl, rfl, hforce, ?_, rfl, rfl⟩
  refine (play_after_reset _ _ [1] earlier later 0 5 hquit ?_).2 [2] hforce.symm ?_
  · rfl
  · rfl

end DebugSession

end Terminal

end PixelTurtle
