/-
PixelTurtle.Proofs.Circles — strict folding rejects the codes in which some walk
goes in a circle.

A walk without an end comes back to a branch where it was before, as there are
only eight branches to a line. `Code.ComesAround` says on which line the first
such branch is. The walk is over the code as it was before the pass: what was
folded before cannot lead to an action that walks for ever.

* `Code.exists_comesAround` — a walk that never ends comes around.
* `Code.comesBack_start_iff` — where it does, and nowhere else, the chain of its
  first branch comes back to its own trail.
* `Code.fold_permissive_of_strict` — what strict folding lets pass it folds like
  permissive folding.
* `Code.fold_strict` — a code is rejected exactly for the first walk without an
  end, on the line of the first branch that repeats.
-/
import Mathlib.Data.Nat.Find
import PixelTurtle.Proofs.Walks

namespace PixelTurtle

theorem Walk.after?_succ {code : Code} {slot : Slot} (n : Nat) (w : Walk) :
    w.after? code slot (n + 1) = (w.after? code slot n).bind (next? code slot) := by
  induction n generalizing w with
  | zero => simp [after?]
  | succ n ih =>
    rw [after?]
    conv_rhs => rw [after?, Option.bind_assoc]
    exact Option.bind_congr fun next _ => ih next

namespace Code

variable {code folded : Code} {line : Nat} {slot : Slot}

/-! ## Walks that come around -/

/-- The branch that the walk from an action of a line stands at after `n` jumps.
The first is the stand-in of the slot, on the line itself. -/
def visit (code : Code) (line : Nat) (slot : Slot) (n : Nat) : Option Branch :=
  (code.walk line slot n).map (Walk.branch slot)

/-- The walk from an action never comes to an action that moves or exits. -/
def Endless (code : Code) (line : Nat) (slot : Slot) : Prop :=
  ∀ n, code.walk line slot n ≠ none

/-- The first branch that repeats on the walk from an action is on line
`again`. -/
def ComesAround (code : Code) (line : Nat) (slot : Slot) (again : Nat) : Prop :=
  ∃ n b, code.visit line slot n = some b ∧ b.line = again ∧
    (∃ m < n, code.visit line slot m = some b) ∧
    ∀ k < n, ∀ m < k, code.visit line slot m ≠ code.visit line slot k

/-- No walk from an action before this one is endless, and this one is. Actions
are taken line by line, white before color, from the lines that hold an
instruction. -/
structure FirstEndless (code : Code) (line : Nat) (slot : Slot) : Prop where
  canRun : code.CanRun line
  endless : code.Endless line slot
  before : ∀ line' slot', code.CanRun line' →
    (line' < line ∨ line' = line ∧ slot' = .white ∧ slot = .color) → ¬ code.Endless line' slot'

theorem visit_zero (code : Code) (line : Nat) (slot : Slot) :
    code.visit line slot 0 = some (Branch.start line slot) := rfl

/-- A walk goes along the chain of its first branch. -/
theorem visit_succ (code : Code) (line : Nat) (slot : Slot) (n : Nat) :
    code.visit line slot (n + 1) = (code.visit line slot n).bind (Branch.next? code) := by
  unfold visit walk
  rw [Walk.after?_succ]
  cases Walk.after? code slot n ⟨line, none⟩ with
  | none => rfl
  | some w => exact (Walk.branch_next? w).symm

theorem endless_iff_spins : code.Endless line slot ↔ code.Spins (Branch.start line slot) := by
  refine ⟨spins_of_walk, fun hspins n hnone => ?_⟩
  obtain ⟨k, w, hw, hend⟩ := Walk.exists_end_of_after?_eq_none hnone
  exact hspins _ (endsOn_of_walk hw hend)

/-- As long as no branch repeats, those visited are a trail of the chain. -/
theorem exists_trail (hrange : code.InRange) (hline : line < code.size) {n : Nat} {b : Branch}
    (hvisit : code.visit line slot n = some b)
    (hnew : ∀ k ≤ n, ∀ m < k, code.visit line slot m ≠ code.visit line slot k) :
    ∃ path, Trail code (b :: path) ∧ [Branch.start line slot] <:+ b :: path ∧ path.length = n ∧
      ∀ p, p ∈ b :: path ↔ ∃ m ≤ n, code.visit line slot m = some p := by
  induction n generalizing b with
  | zero =>
    obtain rfl : Branch.start line slot = b := Option.some.inj hvisit
    refine ⟨[], .start hline slot, List.suffix_rfl, rfl, fun p => ?_⟩
    simp [visit_zero, eq_comm]
  | succ n ih =>
    rw [visit_succ, Option.bind_eq_some_iff] at hvisit
    obtain ⟨newest, hnewest, hnext⟩ := hvisit
    obtain ⟨path, htrail, hsuffix, hlength, hmem⟩ := ih hnewest fun k hk => hnew k (by omega)
    have hb : code.visit line slot (n + 1) = some b := by
      rw [visit_succ, hnewest, Option.bind_some, hnext]
    have hfresh : b ∉ newest :: path := by
      intro hback
      obtain ⟨m, hm, hvisit⟩ := (hmem b).mp hback
      exact hnew (n + 1) (Nat.le_refl _) m (by omega) (hvisit.trans hb.symm)
    refine ⟨newest :: path, htrail.cons hrange hnext hfresh,
      hsuffix.trans (List.suffix_cons b _), by simp [hlength], fun p => ?_⟩
    rw [List.mem_cons, hmem]
    constructor
    · rintro (rfl | ⟨m, hm, hvisit⟩)
      · exact ⟨n + 1, Nat.le_refl _, hb⟩
      · exact ⟨m, by omega, hvisit⟩
    · rintro ⟨m, hm, hvisit⟩
      rcases Nat.lt_or_eq_of_le hm with hlt | rfl
      · exact .inr ⟨m, by omega, hvisit⟩
      · exact .inl (Option.some.inj (hvisit.symm.trans hb))

/-- A walk that never ends comes around: there is no trail of more than
`branchCount` branches. -/
theorem exists_comesAround (hrange : code.InRange) (hline : line < code.size)
    (h : code.Endless line slot) : ∃ again, code.ComesAround line slot again := by
  classical
  have hvisits : ∀ n, ∃ b, code.visit line slot n = some b := by
    intro n
    obtain ⟨w, hw⟩ := Option.ne_none_iff_exists'.mp (h n)
    exact ⟨w.branch slot, by rw [visit, hw, Option.map_some]⟩
  have hrepeats : ∃ n, ∃ m < n, code.visit line slot m = code.visit line slot n := by
    by_contra hnever
    obtain ⟨b, hb⟩ := hvisits code.branchCount
    obtain ⟨path, htrail, -, hlength, -⟩ := exists_trail hrange hline hb
      fun k _ m hm heq => hnever ⟨k, m, hm, heq⟩
    have hle := htrail.length_le
    rw [List.length_cons, hlength] at hle
    omega
  obtain ⟨m, hm, heq⟩ := Nat.find_spec hrepeats
  obtain ⟨b, hb⟩ := hvisits (Nat.find hrepeats)
  refine ⟨b.line, Nat.find hrepeats, b, hb, rfl, ⟨m, hm, heq.trans hb⟩, fun k hk l hl hkl => ?_⟩
  exact Nat.find_min hrepeats hk ⟨l, hl, hkl⟩

/-! ## Where folding rejects a code -/

theorem ComesAround.comesBack (hrange : code.InRange) (hline : line < code.size) {again : Nat}
    (h : code.ComesAround line slot again) :
    ComesBack code [Branch.start line slot] (Folding.loopFault again) := by
  obtain ⟨n, b, hb, rfl, ⟨m, hm, hback⟩, hnew⟩ := h
  cases n with
  | zero => omega
  | succ n =>
    rw [visit_succ, Option.bind_eq_some_iff] at hb
    obtain ⟨newest, hnewest, hnext⟩ := hb
    obtain ⟨path, htrail, hsuffix, -, hmem⟩ := exists_trail hrange hline hnewest
      fun k hk => hnew k (by omega)
    exact ⟨newest, path, b, hsuffix, htrail, hnext, (hmem b).mpr ⟨m, by omega, hback⟩, rfl⟩

/-- The chain of the first branch comes back where the walk comes around. -/
theorem comesBack_start_iff (hrange : code.InRange) (hline : line < code.size) {fault : Fault} :
    ComesBack code [Branch.start line slot] fault ↔
      ∃ again, code.ComesAround line slot again ∧ fault = Folding.loopFault again := by
  constructor
  · intro h
    obtain ⟨again, hagain⟩ := exists_comesAround hrange hline (endless_iff_spins.mpr h.spins)
    exact ⟨again, hagain, h.unique (hagain.comesBack hrange hline)⟩
  · rintro ⟨again, hagain, rfl⟩
    exact hagain.comesBack hrange hline

theorem endless_iff_exists_comesBack (hrange : code.InRange) (hline : line < code.size) :
    code.Endless line slot ↔ ∃ fault, ComesBack code [Branch.start line slot] fault := by
  constructor
  · intro h
    obtain ⟨again, hagain⟩ := exists_comesAround hrange hline h
    exact ⟨_, hagain.comesBack hrange hline⟩
  · rintro ⟨fault, hback⟩
    exact endless_iff_spins.mpr hback.spins

/-- Line by line, white before color. -/
def Precedes (b b' : Branch) : Prop :=
  b.line < b'.line ∨ b.line = b'.line ∧ Slot.of b.color = .white ∧ Slot.of b'.color = .color

theorem Precedes.asymm {b b' : Branch} (h : Precedes b b') : ¬ Precedes b' b := by
  rintro (hlt | ⟨heq, hwhite, -⟩)
  · rcases h with hlt' | ⟨heq', -, -⟩ <;> omega
  · rcases h with hlt' | ⟨-, -, hcolor⟩
    · omega
    · simp [hwhite] at hcolor

theorem line_of_mem_starts {b : Branch} (h : b ∈ Folding.starts code line) : b.line = line := by
  unfold Folding.starts at h
  split at h
  · simp at h
  · obtain ⟨slot, -, rfl⟩ := List.mem_map.mp h
    rfl

theorem pairwise_starts (code : Code) : code.starts.Pairwise Precedes := by
  refine List.pairwise_flatMap.mpr ⟨fun line _ => ?_, ?_⟩
  · unfold Folding.starts
    split
    · exact .nil
    · simp [Slot.both, Precedes, Branch.start]
  · refine List.pairwise_lt_range.imp fun hlt b hb b' hb' => .inl ?_
    rw [line_of_mem_starts hb, line_of_mem_starts hb']
    exact hlt

end Code

/-! ## What strict folding lets pass -/

namespace Folding

variable {depth : Nat} {s s' : Folding} {line : Nat}

/-- The strictness decides nothing but what becomes of a chain that comes
back. -/
theorem resolve_permissive_of_strict {path : List Branch} {a : Action Target} {color : Color}
    {result : Option (Action Target) × Folding}
    (h : resolve .strict depth s path a color = .ok result) :
    resolve .permissive depth s path a color = .ok result := by
  induction depth generalizing s path a color result with
  | zero => exact h
  | succ depth ih =>
    cases hjump : a.stillJump? with
    | none =>
      rw [resolve_of_stillJump?_eq_none hjump] at h ⊢
      exact h
    | some next =>
      obtain ⟨c, hline, hcolor⟩ : ∃ c : Branch, c.line = next ∧ a.write.getD color = c.color :=
        ⟨⟨a.write.getD color, next⟩, rfl, rfl⟩
      subst hline
      rw [resolve_of_stillJump? hjump hcolor] at h ⊢
      by_cases hloop : c ∈ s.looping
      · rwa [if_pos hloop] at h ⊢
      · rw [if_neg hloop] at h ⊢
        by_cases hback : c ∈ path
        · simp [hback] at h
        · rw [if_neg hback] at h ⊢
          cases hrest : resolve .strict depth s (c :: path) (c.action s.code) c.color with
          | error fault => simp [hrest, passBack] at h
          | ok rest => rwa [ih hrest, ← hrest]

theorem foldSlot_permissive_of_strict {slot : Slot}
    (h : foldSlot .strict depth s line slot = .ok s') :
    foldSlot .permissive depth s line slot = .ok s' := by
  unfold foldSlot at h ⊢
  split at h
  · simp at h
  · next hr => rwa [resolve_permissive_of_strict hr]
  · next hr => rwa [resolve_permissive_of_strict hr]

theorem foldLine_permissive_of_strict (h : foldLine .strict depth s line = .ok s') :
    foldLine .permissive depth s line = .ok s' := by
  unfold foldLine at h ⊢
  by_cases hp : s.code.isPlaceholder line = true
  · rwa [if_pos hp] at h ⊢
  · rw [if_neg hp] at h ⊢
    split at h
    · simp at h
    · next hwhite =>
      rw [foldSlot_permissive_of_strict hwhite]
      exact foldSlot_permissive_of_strict h

theorem foldLines_permissive_of_strict {lines : List Nat}
    (h : foldLines .strict depth s lines = .ok s') :
    foldLines .permissive depth s lines = .ok s' := by
  induction lines generalizing s with
  | nil => exact h
  | cons line rest ih =>
    rw [foldLines] at h ⊢
    split at h
    · simp at h
    · next hfirst =>
      rw [foldLine_permissive_of_strict hfirst]
      exact ih h

end Folding

namespace Code

variable {code folded : Code}

/-- What strict folding lets pass it folds like permissive folding. -/
theorem fold_permissive_of_strict (h : code.fold .strict = .ok folded) :
    code.fold .permissive = .ok folded := by
  unfold fold at h ⊢
  cases hlines : Folding.foldLines .strict (code.branchCount + 2) ⟨code, []⟩
      (List.range code.size) with
  | error fault => simp [hlines, Except.map] at h
  | ok s => rwa [Folding.foldLines_permissive_of_strict hlines, ← hlines]

/-! ## Strict folding -/

theorem fold_strict_eq_error_iff (hrange : code.InRange) {fault : Fault} :
    code.fold .strict = .error fault ↔
      ∃ line slot again, code.FirstEndless line slot ∧ code.ComesAround line slot again ∧
        fault = Folding.loopFault again := by
  rw [fold_eq_error_iff hrange, exists_firstAt_iff_of_pairwise (fun _ _ => Precedes.asymm)
    code.pairwise_starts]
  constructor
  · rintro ⟨-, b, hb, hback, hbefore⟩
    obtain ⟨line, slot, hrun, rfl⟩ := mem_starts_iff.mp hb
    obtain ⟨again, hagain, hfault⟩ := (comesBack_start_iff hrange hrun.1).mp hback
    refine ⟨line, slot, again, ⟨hrun, endless_iff_spins.mpr hback.spins, ?_⟩, hagain, hfault⟩
    intro line' slot' hrun' hprecedes hendless
    obtain ⟨fault', hback'⟩ := (endless_iff_exists_comesBack hrange hrun'.1).mp hendless
    refine hbefore _ (mem_starts_iff.mpr ⟨line', slot', hrun', rfl⟩) ?_ fault' hback'
    simpa [Precedes, Branch.start] using hprecedes
  · rintro ⟨line, slot, again, hfirst, hagain, hfault⟩
    refine ⟨rfl, _, mem_starts_iff.mpr ⟨line, slot, hfirst.canRun, rfl⟩,
      (comesBack_start_iff hrange hfirst.canRun.1).mpr ⟨again, hagain, hfault⟩, ?_⟩
    intro b' hb' hprecedes fault' hback'
    obtain ⟨line', slot', hrun', rfl⟩ := mem_starts_iff.mp hb'
    refine hfirst.before line' slot' hrun' ?_ (endless_iff_spins.mpr hback'.spins)
    simpa [Precedes, Branch.start] using hprecedes

/-- Strict folding rejects a code exactly if the walk from some action of a line
that holds an instruction has no end. The fault is then on the line of the first
branch that repeats on the first such walk, and it tells of an endless loop.
Every other code is folded as it is by permissive folding. -/
theorem fold_strict (hrange : code.InRange) :
    ((∃ fault, code.fold .strict = .error fault) ↔
        ∃ line slot, code.CanRun line ∧ code.Endless line slot) ∧
      (∀ fault, code.fold .strict = .error fault ↔
        ∃ line slot again, code.FirstEndless line slot ∧ code.ComesAround line slot again ∧
          fault = Folding.loopFault again) ∧
      ∀ folded, code.fold .strict = .ok folded → code.fold .permissive = .ok folded := by
  refine ⟨⟨?_, ?_⟩, fun fault => fold_strict_eq_error_iff hrange,
    fun folded => fold_permissive_of_strict⟩
  · rintro ⟨fault, hfault⟩
    obtain ⟨line, slot, -, hfirst, -⟩ := (fold_strict_eq_error_iff hrange).mp hfault
    exact ⟨line, slot, hfirst.canRun, hfirst.endless⟩
  · rintro ⟨line, slot, hrun, hendless⟩
    cases hfold : code.fold .strict with
    | error fault => exact ⟨fault, rfl⟩
    | ok folded =>
      rcases fold_settled (b := Branch.start line slot) hrange hfold hrun with hends | ⟨-, hnever⟩
      · exact absurd hends (endless_iff_spins.mp hendless _)
      · simp at hnever

/-- A walk that comes to the third line again before any branch repeats: it does
so in red and then in green. The fault is on the second line. -/
theorem fold_strict_in_two_colors :
    ∃ code : Code, code =
        #[⟨⟨some .red, .nowhere, .jump 2⟩, .goOn (.exit 0), .conditional⟩,
          ⟨.goOn (.exit 0), .goOn (.jump 2), .conditional⟩,
          ⟨.goOn (.exit 0), ⟨some .green, .nowhere, .jump 1⟩, .conditional⟩] ∧
      code.InRange ∧ code.fold .strict = .error (Folding.loopFault 1) ∧
      ∃ line slot, code.FirstEndless line slot ∧ code.ComesAround line slot 1 := by
  have hrange : Code.InRange
      #[⟨⟨some .red, .nowhere, .jump 2⟩, .goOn (.exit 0), .conditional⟩,
        ⟨.goOn (.exit 0), .goOn (.jump 2), .conditional⟩,
        ⟨.goOn (.exit 0), ⟨some .green, .nowhere, .jump 1⟩, .conditional⟩] := by
    rintro (_ | _ | _ | line) (_ | _) next h <;>
      simp_all [Code.action, Action.goOn, Instruction.action] <;> omega
  have hfold : Code.fold .strict
      #[⟨⟨some .red, .nowhere, .jump 2⟩, .goOn (.exit 0), .conditional⟩,
        ⟨.goOn (.exit 0), .goOn (.jump 2), .conditional⟩,
        ⟨.goOn (.exit 0), ⟨some .green, .nowhere, .jump 1⟩, .conditional⟩] =
      .error (Folding.loopFault 1) := rfl
  obtain ⟨line, slot, again, hfirst, hagain, hfault⟩ := ((fold_strict hrange).2.1 _).mp hfold
  obtain rfl : 1 = again := by simpa [Folding.loopFault] using hfault
  exact ⟨_, rfl, hrange, hfold, line, slot, hfirst, hagain⟩

end Code

end PixelTurtle
