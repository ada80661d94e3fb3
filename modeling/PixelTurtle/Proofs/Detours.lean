/-
PixelTurtle.Proofs.Detours — collapsing cuts every detour short, and leaves the
endless ones endless.

A jump onto a placeholder makes a detour: from one placeholder to the next, until
it comes to an exit or to a line that holds an instruction, or round and round.

* `Code.detour` — where a target leads once it has gone through a number of
  placeholders.
* `Code.LeadsTo`, `Code.GoesRound` — detours with an end and without one.
* `Code.detour_collapse_of_goesRound` — a detour without an end has none after
  collapsing either, and keeps to the placeholders it had.
* `Code.collapse_retargets` — what collapsing does to the jumps of a code, for any
  code whose jumps are in range and whose placeholders have one target.
-/
import PixelTurtle.Proofs.Placeholders

namespace PixelTurtle

open StateTransition

namespace Code

variable {code : Code}

/-! ## Detours -/

/-- Where a target leads once it has gone through `n` placeholders, if there are
as many. -/
def detour (code : Code) : Nat → Target → Option Target
  | 0, t => some t
  | n + 1, t => (code.skip? t).bind (detour code n)

/-- The target leads through placeholders to `e`, and no further. -/
def LeadsTo (code : Code) (t e : Target) : Prop :=
  ∃ n, code.detour n t = some e ∧ code.skip? e = none

/-- The target leads from placeholder to placeholder for ever. -/
def GoesRound (code : Code) (t : Target) : Prop :=
  ∀ n, code.detour n t ≠ none

theorem detour_add (m n : Nat) (t : Target) :
    code.detour (m + n) t = (code.detour m t).bind (code.detour n) := by
  induction m generalizing t with
  | zero => simp [detour]
  | succ m ih =>
    rw [Nat.add_right_comm, detour, detour]
    cases code.skip? t with
    | none => rfl
    | some t' => exact ih t'

theorem reaches_iff_exists_detour {t u : Target} :
    Reaches code.skip? t u ↔ ∃ n, code.detour n t = some u := by
  constructor
  · intro h
    induction h using Relation.ReflTransGen.head_induction_on with
    | refl => exact ⟨0, rfl⟩
    | head hstep _ ih =>
      obtain ⟨n, hn⟩ := ih
      exact ⟨n + 1, by rwa [detour, Option.mem_def.mp hstep, Option.bind_some]⟩
  · rintro ⟨n, hn⟩
    induction n generalizing t with
    | zero =>
      obtain rfl : t = u := Option.some.inj hn
      exact .refl
    | succ n ih =>
      obtain ⟨next, hstep, hrest⟩ := Option.bind_eq_some_iff.mp hn
      exact .head hstep (ih hrest)

theorem leadsTo_iff_mem_eval {t e : Target} : code.LeadsTo t e ↔ e ∈ eval code.skip? t := by
  rw [mem_eval, reaches_iff_exists_detour, LeadsTo, exists_and_right]

/-- A target goes through a placeholder exactly when it is a jump onto one. -/
theorem skip?_ne_none_iff {t : Target} :
    code.skip? t ≠ none ↔ ∃ next, t = .jump next ∧ code.isPlaceholder next = true := by
  cases t with
  | exit status => simp
  | jump next => simp [skip?]

/-- Whatever a detour goes through is a line of the code. -/
theorem lt_size_of_detour (hrange : code.InRange) {n : Nat} {t : Target}
    (ht : ∀ next, t = .jump next → next < code.size) {next : Nat}
    (h : code.detour n t = some (.jump next)) : next < code.size := by
  induction n generalizing t with
  | zero => exact ht next (Option.some.inj h)
  | succ n ih =>
    obtain ⟨t', hstep, hrest⟩ := Option.bind_eq_some_iff.mp h
    refine ih (fun l hl => ?_) hrest
    obtain ⟨line, rfl, hp⟩ := skip?_ne_none_iff.mp (Option.ne_none_iff_exists'.mpr ⟨t', hstep⟩)
    rw [skip?_placeholder hp, Option.some.injEq] at hstep
    exact hrange line .white l (hstep.trans hl)

/-! ## Detours without an end -/

/-- A detour without an end comes to placeholders only. -/
theorem GoesRound.exists_jump {t u : Target} (h : code.GoesRound t) {n : Nat}
    (hn : code.detour n t = some u) :
    ∃ next, u = .jump next ∧ code.isPlaceholder next = true := by
  have hnext := h (n + 1)
  rw [detour_add, hn, Option.bind_some, detour] at hnext
  exact skip?_ne_none_iff.mp fun hnone => hnext (by rw [hnone, Option.bind_none])

/-- Collapsing moves the jump of a placeholder along the detour that it is on. -/
theorem exists_detour_collapse (hone : code.OneTarget) {t : Target} {n line : Nat}
    (h : code.detour n t = some (.jump line)) (hp : code.isPlaceholder line = true) (slot : Slot) :
    ∃ m, code.detour m t = some (code.collapse.action line slot).target := by
  obtain ⟨k, hk⟩ := reaches_iff_exists_detour.mp (collapse_reaches hone line slot)
  refine ⟨n + (k + 1), ?_⟩
  rw [detour_add, h, Option.bind_some, detour, skip?_placeholder hp, Option.bind_some,
    ← hone line slot hp, hk]

/-- A detour without an end goes on without an end after collapsing, among the
placeholders that it went through before. -/
theorem detour_collapse_of_goesRound (hone : code.OneTarget) {t : Target} (h : code.GoesRound t)
    (k : Nat) : ∀ {n line : Nat}, code.detour n t = some (.jump line) →
      ∃ m next, code.collapse.detour k (.jump line) = some (.jump next) ∧
        code.detour m t = some (.jump next) := by
  induction k with
  | zero => exact fun {n line} hn => ⟨n, line, rfl, hn⟩
  | succ k ih =>
    intro n line hn
    obtain ⟨_, heq, hp⟩ := h.exists_jump hn
    obtain rfl := Target.jump.inj heq
    obtain ⟨m, hm⟩ := exists_detour_collapse hone hn hp .white
    obtain ⟨next, hnext, -⟩ := h.exists_jump hm
    rw [hnext] at hm
    have hp' : code.collapse.isPlaceholder line = true :=
      (isPlaceholder_congr (kinds_collapse hone) line).trans hp
    rw [detour, skip?_placeholder hp', hnext, Option.bind_some]
    exact ih hm

/-! ## Collapsing -/

/-- What the collapsed code has of the code before. -/
structure Retargets (code collapsed : Code) : Prop where
  size_eq : collapsed.size = code.size
  kinds_eq : collapsed.kinds = code.kinds
  write_eq : ∀ line slot, (collapsed.action line slot).write = (code.action line slot).write
  direction_eq : ∀ line slot,
    (collapsed.action line slot).direction = (code.action line slot).direction
  /-- Exits stay. -/
  exits : ∀ line slot status, (code.action line slot).target = .exit status →
    (collapsed.action line slot).target = .exit status
  /-- So do jumps to lines that hold an instruction. -/
  runs : ∀ line slot next, (code.action line slot).target = .jump next → code.CanRun next →
    (collapsed.action line slot).target = .jump next
  /-- A detour with an end is replaced by it: an exit or a line that holds an
  instruction. -/
  ends : ∀ line slot e, code.LeadsTo (code.action line slot).target e →
    (collapsed.action line slot).target = e ∧
      ((∃ status, e = .exit status) ∨ ∃ next, e = .jump next ∧ code.CanRun next)
  /-- A detour without an end is entered at one of its placeholders, and still has
  no end: it keeps to the placeholders it had. -/
  rounds : ∀ line slot, code.GoesRound (code.action line slot).target →
    (∃ n next, code.detour n (code.action line slot).target = some (.jump next) ∧
      code.isPlaceholder next = true ∧ (collapsed.action line slot).target = .jump next) ∧
    ∀ k, ∃ n next, collapsed.detour k (collapsed.action line slot).target = some (.jump next) ∧
      code.detour n (code.action line slot).target = some (.jump next)

theorem collapse_leadsTo (hone : code.OneTarget) (line : Nat) (slot : Slot) {e : Target}
    (h : code.LeadsTo (code.action line slot).target e) :
    (code.collapse.action line slot).target = e :=
  collapse_eval hone line slot (leadsTo_iff_mem_eval.mp h)

theorem LeadsTo.cases (hrange : code.InRange) {line : Nat} {slot : Slot} {e : Target}
    (h : code.LeadsTo (code.action line slot).target e) :
    (∃ status, e = .exit status) ∨ ∃ next, e = .jump next ∧ code.CanRun next := by
  obtain ⟨n, hn, hend⟩ := h
  cases e with
  | exit status => exact .inl ⟨status, rfl⟩
  | jump next =>
    have hlt := lt_size_of_detour hrange (hrange line slot) hn
    have hp : code.isPlaceholder next ≠ true :=
      fun hp => skip?_ne_none_iff.mpr ⟨next, rfl, hp⟩ hend
    exact .inr ⟨next, rfl, hlt, Bool.eq_false_iff.mpr hp⟩

/-- Collapsing redirects every jump onto a placeholder to the end of its detour,
keeps the jumps of an endless detour on it, and changes nothing else. -/
theorem collapse_retargets (hrange : code.InRange) (hone : code.OneTarget) :
    code.Retargets code.collapse where
  size_eq := size_congr (kinds_collapse hone)
  kinds_eq := kinds_collapse hone
  write_eq := (passed_collapse hone).of.write
  direction_eq := (passed_collapse hone).of.direction
  exits line slot status htarget :=
    collapse_leadsTo hone line slot ⟨0, by rw [htarget, detour], skip?_exit code status⟩
  runs line slot next htarget hrun :=
    collapse_leadsTo hone line slot ⟨0, by rw [htarget, detour], skip?_of_not hrun.2⟩
  ends line slot e hlead := ⟨collapse_leadsTo hone line slot hlead, hlead.cases hrange⟩
  rounds line slot hround := by
    obtain ⟨n, hn⟩ := reaches_iff_exists_detour.mp (collapse_reaches hone line slot)
    obtain ⟨next, hnext, hp⟩ := hround.exists_jump hn
    rw [hnext] at hn
    refine ⟨⟨n, next, hn, hp, hnext⟩, fun k => ?_⟩
    obtain ⟨m, next', hdetour, hm⟩ := detour_collapse_of_goesRound hone hround k hn
    exact ⟨m, next', by rwa [hnext], hm⟩

/-- A detour through two placeholders that write, and one that goes round. -/
theorem collapse_retargets_two_detours :
    ∃ code : Code, code = #[
        ⟨⟨some .red, .up, .jump 1⟩, .goOn (.jump 4), .conditional⟩,
        ⟨⟨some .blue, .nowhere, .jump 2⟩, .goOn (.jump 2), .placeholder⟩,
        ⟨.goOn (.jump 5), ⟨some .red, .left, .jump 5⟩, .placeholder⟩,
        ⟨.goOn (.jump 4), .goOn (.jump 4), .placeholder⟩,
        ⟨.goOn (.jump 3), ⟨some .white, .nowhere, .jump 3⟩, .placeholder⟩,
        ⟨.goOn (.exit 1), .goOn (.exit 1), .unconditional⟩] ∧
      code.InRange ∧ code.OneTarget ∧
      code.collapse.action 0 .white = ⟨some .red, .up, .jump 5⟩ ∧
      ((code.collapse.action 0 .color).target = .jump 3 ∨
        (code.collapse.action 0 .color).target = .jump 4) := by
  refine ⟨_, rfl, ?_⟩
  generalize hcode : (#[_, _, _, _, _, _] : Code) = code
  have hrange : InRange code := by
    subst hcode
    rintro (_ | _ | _ | _ | _ | _ | line) (_ | _) next h <;>
      simp_all [action, Action.goOn, Instruction.action] <;> omega
  have hone : OneTarget code := by
    subst hcode
    rintro (_ | _ | _ | _ | _ | _ | line) (_ | _) h <;>
      simp_all [action, isPlaceholder, Action.goOn, Instruction.action]
  have hkeeps := collapse_retargets hrange hone
  refine ⟨hrange, hone, ?_, ?_⟩
  · have hlead : LeadsTo code (action code 0 .white).target (.jump 5) := by
      subst hcode
      exact ⟨2, rfl, rfl⟩
    rw [collapse_action_eq hone, (hkeeps.ends 0 .white _ hlead).1]
    subst hcode
    rfl
  · -- the detour alternates between its two placeholders
    have hround : ∀ n, (detour code n (.jump 4) = some (.jump 3) ∨
        detour code n (.jump 4) = some (.jump 4)) ∧
        (detour code n (.jump 3) = some (.jump 3) ∨ detour code n (.jump 3) = some (.jump 4)) := by
      subst hcode
      intro n
      induction n with
      | zero => exact ⟨.inr rfl, .inl rfl⟩
      | succ n ih => exact ih.symm
    have htarget : (action code 0 .color).target = .jump 4 := by
      subst hcode
      rfl
    have hgoes : GoesRound code (action code 0 .color).target := by
      intro n hnone
      rw [htarget] at hnone
      rcases (hround n).1 with h | h <;> simp [h] at hnone
    obtain ⟨n, next, hn, -, hcollapsed⟩ := (hkeeps.rounds 0 .color hgoes).1
    rw [htarget] at hn
    rw [hcollapsed]
    rcases (hround n).1 with h | h
    · exact .inl (Option.some.inj (hn.symm.trans h))
    · exact .inr (Option.some.inj (hn.symm.trans h))

end Code

end PixelTurtle
