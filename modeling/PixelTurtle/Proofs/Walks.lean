/-
PixelTurtle.Proofs.Walks — folding computes where a naive walk leads.

A walk starts at an action of a line and goes on to the line jumped to for as
long as the action it has come to stands still and jumps. The color it wrote
last, or the stand-in of the slot it started from, selects the action there.
Nothing is remembered on the way, and nothing is overwritten: a walk is over
one code from its start to its end, if it has one.

* `Walk.next?`, `Walk.after?` — one jump of a walk, and a number of them.
* `Code.endsOn_of_after?`, `Code.exists_after?_of_endsOn` — a walk ends exactly
  where the chain of its first branch does.
* `Code.fold_eq_walk` — folding puts the end of its walk in the place of each
  action and leaves alone those whose walk has no end, for any code whose
  jumps are in range.
-/
import PixelTurtle.Proofs.Folding

namespace PixelTurtle

/-! ## Walks -/

/-- The line that a walk has come to, and the color it wrote last. -/
structure Walk where
  line : Nat
  written : Option Color
  deriving DecidableEq

namespace Walk

/-- The branch that a walk from a slot stands at: the pixel is the stand-in of
the slot until something is written. -/
def branch (slot : Slot) (w : Walk) : Branch :=
  ⟨w.written.getD slot.standIn, w.line⟩

/-- The action that a walk has come to. -/
def action (code : Code) (slot : Slot) (w : Walk) : Action Target :=
  (w.branch slot).action code

/-- Go on to the line jumped to, if the action stands still and jumps. -/
def next? (code : Code) (slot : Slot) (w : Walk) : Option Walk :=
  (w.action code slot).stillJump?.map fun line =>
    ⟨line, (w.action code slot).write.or w.written⟩

/-- Where a walk is after `n` more jumps, if it gets that far. -/
def after? (code : Code) (slot : Slot) : Nat → Walk → Option Walk
  | 0, w => some w
  | n + 1, w => (w.next? code slot).bind (after? code slot n)

/-- The action that a walk has come to, with the last write up to there. -/
def result (code : Code) (slot : Slot) (w : Walk) : Action Target :=
  (w.action code slot).carry w.written

variable {code : Code} {slot : Slot}

/-- A walk goes from branch to branch of a chain. -/
theorem branch_next? (w : Walk) :
    (w.branch slot).next? code = (w.next? code slot).map (branch slot) := by
  unfold Branch.next? next? action
  cases ((w.branch slot).action code).stillJump? with
  | none => rfl
  | some line =>
    simp only [Option.map_some, Option.some.injEq]
    cases hwrite : ((w.branch slot).action code).write <;> simp [branch]

/-- A walk that does not get as far as `n` jumps has an end. -/
theorem exists_end_of_after?_eq_none {n : Nat} {w : Walk} (h : w.after? code slot n = none) :
    ∃ k w', w.after? code slot k = some w' ∧ w'.next? code slot = none := by
  induction n generalizing w with
  | zero => simp [after?] at h
  | succ n ih =>
    cases hnext : w.next? code slot with
    | none => exact ⟨0, w, rfl, hnext⟩
    | some next =>
      rw [after?, hnext, Option.bind_some] at h
      obtain ⟨k, w', hw', hend⟩ := ih h
      refine ⟨k + 1, w', ?_, hend⟩
      rw [after?, hnext, Option.bind_some, hw']

/-- A walk that has come to its end gets no further. -/
theorem after?_succ_eq_none {n : Nat} {w w' : Walk} (h : w.after? code slot n = some w')
    (hend : w'.next? code slot = none) : w.after? code slot (n + 1) = none := by
  induction n generalizing w with
  | zero =>
    obtain rfl : w = w' := by simpa [after?] using h
    rw [after?, hend, Option.bind_none]
  | succ n ih =>
    rw [after?, Option.bind_eq_some_iff] at h
    obtain ⟨next, hnext, hrest⟩ := h
    rw [after?, hnext, Option.bind_some]
    exact ih hrest

end Walk

theorem Action.carry_carry (last : Action Target) (write written : Option Color) :
    (last.carry write).carry written = last.carry (write.or written) := by
  simp [carry, Option.or_assoc]

@[simp] theorem Action.carry_none (last : Action Target) : last.carry none = last := by
  simp [carry]

/-! ## Walks and chains -/

namespace Code

variable {code folded : Code} {slot : Slot}

/-- Where a walk ends, the chain of its first branch ends. What was written
before the walk came to that branch is still to be added. -/
theorem endsOn_of_after? {n : Nat} {w w' : Walk} (h : w.after? code slot n = some w')
    (hend : w'.next? code slot = none) :
    ∃ last, code.EndsOn (w.branch slot) last ∧ last.carry w.written = w'.result code slot := by
  induction n generalizing w with
  | zero =>
    obtain rfl : w = w' := by simpa [Walk.after?] using h
    have hnone : (w.branch slot).next? code = none := by rw [Walk.branch_next?, hend]; rfl
    exact ⟨_, .here hnone, rfl⟩
  | succ n ih =>
    rw [Walk.after?, Option.bind_eq_some_iff] at h
    obtain ⟨next, hnext, hrest⟩ := h
    obtain ⟨last, hlast, hresult⟩ := ih hrest
    have hbranch : (w.branch slot).next? code = some (next.branch slot) := by
      rw [Walk.branch_next?, hnext]
      rfl
    have hwritten : next.written = (w.action code slot).write.or w.written := by
      obtain ⟨line, -, rfl⟩ := Option.map_eq_some_iff.mp hnext
      rfl
    refine ⟨_, .on hbranch hlast, ?_⟩
    rw [Action.carry_carry, ← hresult, hwritten]
    rfl

/-- A walk along a chain that ends has an end. -/
theorem exists_after?_of_endsOn {b : Branch} {last : Action Target} (h : code.EndsOn b last) :
    ∀ w : Walk, w.branch slot = b →
      ∃ n w', w.after? code slot n = some w' ∧ w'.next? code slot = none := by
  induction h with
  | here hnone =>
    rintro w rfl
    rw [Walk.branch_next?, Option.map_eq_none_iff] at hnone
    exact ⟨0, w, rfl, hnone⟩
  | on hnext _ ih =>
    rintro w rfl
    rw [Walk.branch_next?, Option.map_eq_some_iff] at hnext
    obtain ⟨next, hnext, hbranch⟩ := hnext
    obtain ⟨n, w', hw', hend⟩ := ih next hbranch
    refine ⟨n + 1, w', ?_, hend⟩
    rw [Walk.after?, hnext, Option.bind_some, hw']

/-- Where the walk from an action of a line is after `n` jumps. -/
def walk (code : Code) (line : Nat) (slot : Slot) (n : Nat) : Option Walk :=
  Walk.after? code slot n ⟨line, none⟩

theorem endsOn_of_walk {line n : Nat} {w : Walk} (h : code.walk line slot n = some w)
    (hend : w.next? code slot = none) :
    code.EndsOn (Branch.start line slot) (w.result code slot) := by
  obtain ⟨last, hlast, hresult⟩ := endsOn_of_after? h hend
  rw [Action.carry_none] at hresult
  exact hresult ▸ hlast

/-- What an action is to be replaced by: the action that its walk ends on, with
the last write of the walk, or itself if the walk never ends. -/
inductive Resolves (code : Code) (line : Nat) (slot : Slot) : Action Target → Prop where
  | ends {n : Nat} {w : Walk} (reached : code.walk line slot n = some w)
      (last : w.next? code slot = none) : Resolves code line slot (w.result code slot)
  | never (goesOn : ∀ n, code.walk line slot n ≠ none) :
      Resolves code line slot (code.action line slot)

theorem EndsOn.resolves {line : Nat} {last : Action Target}
    (h : code.EndsOn (Branch.start line slot) last) : code.Resolves line slot last := by
  obtain ⟨n, w, hw, hend⟩ := exists_after?_of_endsOn h ⟨line, none⟩ rfl
  rw [h.unique (endsOn_of_walk hw hend)]
  exact .ends hw hend

theorem Spins.resolves {line : Nat} (h : code.Spins (Branch.start line slot)) :
    code.Resolves line slot (code.action line slot) := by
  refine .never fun n hnone => ?_
  obtain ⟨k, w, hw, hend⟩ := Walk.exists_end_of_after?_eq_none hnone
  exact h _ (endsOn_of_walk hw hend)

/-- A walk that never ends follows a chain that never ends. -/
theorem spins_of_walk {line : Nat} (h : ∀ n, code.walk line slot n ≠ none) :
    code.Spins (Branch.start line slot) := by
  intro last hlast
  obtain ⟨n, w, hw, hend⟩ := exists_after?_of_endsOn hlast ⟨line, none⟩ rfl
  exact h (n + 1) (Walk.after?_succ_eq_none hw hend)

/-! ## Folding -/

/-- On a line that holds an instruction, an action is folded to what it resolves
to, whatever was folded before it. -/
theorem fold_action_iff {line : Nat} (hrange : code.InRange)
    (h : code.fold .permissive = .ok folded) (hrun : code.CanRun line) (a : Action Target) :
    folded.action line slot = a ↔ code.Resolves line slot a := by
  have hsettled := fold_settled hrange h (b := Branch.start line slot) hrun
  have haction := fold_action hrange h (Branch.start line slot)
  simp only [Branch.action_start] at hsettled haction
  constructor
  · rintro rfl
    rcases hsettled with hends | ⟨hspins, -⟩
    · exact hends.resolves
    · rw [haction.resolve_right (hspins _)]
      exact hspins.resolves
  · intro hresolves
    cases hresolves with
    | ends hw hend =>
      have hends := endsOn_of_walk hw hend
      rcases hsettled with hfolded | ⟨hspins, -⟩
      · exact hfolded.unique hends
      · exact absurd hends (hspins _)
    | never hgoesOn => exact haction.resolve_right (spins_of_walk hgoesOn _)

/-- Permissive folding succeeds on every code whose jumps are in range. It keeps
the lines and their kinds. On every line that holds an instruction an action is
replaced by what it resolves to in the code before, and by nothing else; those
of a placeholder are too, or they are left alone. -/
theorem fold_eq_walk (hrange : code.InRange) :
    ∃ folded, code.fold .permissive = .ok folded ∧ folded.size = code.size ∧
      folded.kinds = code.kinds ∧
      (∀ line slot a, code.CanRun line →
        (folded.action line slot = a ↔ code.Resolves line slot a)) ∧
      ∀ line slot, code.isPlaceholder line = true →
        folded.action line slot = code.action line slot ∨
          code.Resolves line slot (folded.action line slot) := by
  have hnever : Strictness.permissive ≠ .strict := by decide
  obtain ⟨folded, hfold⟩ := exists_fold_of_ends hrange fun heq => absurd heq hnever
  have hkinds := kinds_fold hrange hfold
  refine ⟨folded, hfold, size_congr hkinds, hkinds, ?_, ?_⟩
  · intro line slot a hrun
    exact fold_action_iff hrange hfold hrun a
  · intro line slot _
    have haction := fold_action hrange hfold (Branch.start line slot)
    rw [Branch.action_start, Branch.action_start] at haction
    exact haction.imp id EndsOn.resolves

/-- A chain that leads over a placeholder to an action that moves, and one that
comes back to its own line. -/
theorem fold_eq_walk_over_placeholder :
    ∃ folded, fold .permissive
        #[⟨⟨some .red, .nowhere, .jump 1⟩, .goOn (.jump 0), .conditional⟩,
          ⟨.goOn (.jump 2), .goOn (.jump 2), .placeholder⟩,
          ⟨.goOn (.exit 0), ⟨none, .up, .jump 0⟩, .conditional⟩] = .ok folded ∧
      folded.action 0 .white = ⟨some .red, .up, .jump 0⟩ ∧
      folded.action 0 .color = .goOn (.jump 0) := by
  obtain ⟨code, hcode⟩ : ∃ code : Code, code =
      #[⟨⟨some .red, .nowhere, .jump 1⟩, .goOn (.jump 0), .conditional⟩,
        ⟨.goOn (.jump 2), .goOn (.jump 2), .placeholder⟩,
        ⟨.goOn (.exit 0), ⟨none, .up, .jump 0⟩, .conditional⟩] := ⟨_, rfl⟩
  have hrange : code.InRange := by
    subst hcode
    rintro (_ | _ | _ | line) (_ | _) next h <;>
      simp_all [Code.action, Action.goOn, Instruction.action] <;> omega
  have hstays : ∀ n, code.walk 0 .color n = some ⟨0, none⟩ := by
    subst hcode
    intro n
    induction n with
    | zero => rfl
    | succ n ih => exact ih
  obtain ⟨folded, hfold, -, -, haction, -⟩ := fold_eq_walk hrange
  subst hcode
  refine ⟨folded, hfold, ?_, ?_⟩
  · exact (haction 0 .white _ ⟨by decide, rfl⟩).mpr (.ends (n := 2) (w := ⟨2, some .red⟩) rfl rfl)
  · exact (haction 0 .color _ ⟨by decide, rfl⟩).mpr (.never (by simp [hstays]))

end Code

end PixelTurtle
