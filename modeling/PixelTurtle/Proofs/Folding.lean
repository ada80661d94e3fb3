/-
PixelTurtle.Proofs.Folding — folding replaces an action by the action that
its chain ends on.

A pass in progress holds a code in which some actions are replaced already.
What carries the induction is `Folding.Of`: every action is the one of the
code before, or the end of its own chain in the code before. A replaced
action ends a chain at once, so following the code of the moment and
following the code before come to the same.

* `Folding.resolve_spec` — following one chain, the path being a trail of
  the code before.
* `Folding.foldLines_spec` — folding the lines of a list, in order.
* `Code.fold_action`, `Code.fold_settled`, `Code.fold_placeholder` — what
  the actions of a folded code are.
* `Code.fold_eq_error_iff` — which codes are rejected, and where.
* `Code.exists_fold_of_ends`, `Code.fold_transfer` — what two codes with the
  same chains have in common when they are folded.
-/
import PixelTurtle.Proofs.Chains
import PixelTurtle.Proofs.First

namespace PixelTurtle

namespace Folding

/-! ## The pass in progress -/

/-- The pass has come from `code` to here by replacing actions with the ends
of their chains, all lines in `looping` spin, and a placeholder was only
touched where some chain leads onto it. -/
structure Of (code : Code) (strictness : Strictness) (s : Folding) : Prop where
  kinds : s.code.kinds = code.kinds
  action : ∀ b : Branch, b.action s.code = b.action code ∨ code.EndsOn b (b.action s.code)
  spins : ∀ b ∈ s.looping, code.Spins b
  strict : strictness = .strict → s.looping = []
  placeholder : ∀ b : Branch, code.isPlaceholder b.line = true →
    b.action s.code = b.action code ∨ ∃ p c : Branch, p.next? code = some c ∧ c.line = b.line

/-- Replaced actions stay replaced. -/
def Keeps (code : Code) (s s' : Folding) : Prop :=
  ∀ b : Branch, code.EndsOn b (b.action s.code) → code.EndsOn b (b.action s'.code)

/-- Replace the action of a branch. -/
def put (s : Folding) (b : Branch) (last : Action Target) : Folding :=
  { s with code := s.code.setAction b.line (Slot.of b.color) last }

variable {code : Code} {strictness : Strictness} {s : Folding}

theorem Of.size (h : Of code strictness s) : s.code.size = code.size :=
  Code.size_congr h.kinds

theorem Of.start (code : Code) (strictness : Strictness) : Of code strictness ⟨code, []⟩ where
  kinds := rfl
  action _ := .inl rfl
  spins := by simp
  strict _ := rfl
  placeholder _ _ := .inl rfl

theorem Of.markLooping (h : Of code .permissive s) {b : Branch} (hb : code.Spins b) :
    Of code .permissive (s.markLooping b) where
  kinds := h.kinds
  action := h.action
  spins := by
    intro c hc
    rcases List.mem_cons.mp hc with rfl | hc
    · exact hb
    · exact h.spins c hc
  strict := by simp
  placeholder := h.placeholder

/-! Replacing the action of a branch by the end of its chain replaces it for
all branches that are alike, and no others. -/

section Put

variable {b : Branch} {last : Action Target}

theorem action_put_of_alike (hline : b.line < s.code.size) {b' : Branch} (h : b.Alike b') :
    b'.action (s.put b last).code = last := by
  rw [Branch.action, put, Code.action_setAction _ hline, if_pos ⟨h.1.symm, h.2.symm⟩]

theorem action_put_of_not_alike (hline : b.line < s.code.size) {b' : Branch}
    (h : ¬ b.Alike b') : b'.action (s.put b last).code = b'.action s.code := by
  rw [Branch.action, put, Code.action_setAction _ hline,
    if_neg (fun heq => h ⟨heq.1.symm, heq.2.symm⟩), Branch.action]

theorem Of.put (h : Of code strictness s) (hline : b.line < code.size)
    (hlast : code.EndsOn b last)
    (hp : code.isPlaceholder b.line = false ∨
      ∃ p c : Branch, p.next? code = some c ∧ c.line = b.line) :
    Of code strictness (s.put b last) := by
  have hsize : b.line < s.code.size := h.size ▸ hline
  refine ⟨?_, ?_, h.spins, h.strict, ?_⟩
  · rw [← h.kinds]
    exact Code.kinds_setAction _ _ _ _
  · intro b'
    by_cases halike : b.Alike b'
    · right
      rw [action_put_of_alike hsize halike]
      exact hlast.alike halike
    · rw [action_put_of_not_alike hsize halike]
      exact h.action b'
  · intro b' hb'
    by_cases halike : b.Alike b'
    · right
      rw [← halike.1] at hb' ⊢
      exact hp.resolve_left (by simp [hb'])
    · rw [action_put_of_not_alike hsize halike]
      exact h.placeholder b' hb'

theorem keeps_put (hline : b.line < s.code.size) (hlast : code.EndsOn b last) :
    Keeps code s (s.put b last) := by
  intro b' hb'
  by_cases halike : b.Alike b'
  · rw [action_put_of_alike hline halike]
    exact hlast.alike halike
  · rw [action_put_of_not_alike hline halike]
    exact hb'

end Put

/-! ## Following one chain -/

/-- What following the chain of a branch gives. -/
inductive Follows (code : Code) (strictness : Strictness) (s : Folding) (b : Branch)
    (path : List Branch) : Except Fault (Option (Action Target) × Folding) → Prop where
  | ends {last : Action Target} {s' : Folding} (hlast : code.EndsOn b last)
      (of : Of code strictness s') (keeps : Keeps code s s') :
      Follows code strictness s b path (.ok (some last, s'))
  | spins {s' : Folding} (hspins : code.Spins b) (permissive : strictness = .permissive)
      (of : Of code strictness s') (keeps : Keeps code s s') :
      Follows code strictness s b path (.ok (none, s'))
  | rejects {fault : Fault} (strict : strictness = .strict)
      (back : ComesBack code (b :: path) fault) :
      Follows code strictness s b path (.error fault)

theorem resolve_of_stillJump?_eq_none {depth : Nat} {path : List Branch} {a : Action Target}
    (h : a.stillJump? = none) (color : Color) :
    resolve strictness (depth + 1) s path a color = .ok (some a, s) := by
  simp only [resolve, h]

/-- What a level of the recursion makes of what it got for the branch jumped
to: its end, if it has one, is put in its place and handed on with the write
made before the jump. -/
def passBack (c : Branch) (write : Option Color) :
    Except Fault (Option (Action Target) × Folding) →
      Except Fault (Option (Action Target) × Folding)
  | .error fault => .error fault
  | .ok (none, s) => .ok (none, s.markLooping c)
  | .ok (some last, s) => .ok (some (last.carry write), s.put c last)

/-- One level of the recursion, the branch jumped to being `c`. -/
theorem resolve_of_stillJump? {depth : Nat} {path : List Branch} {a : Action Target}
    {color : Color} {c : Branch} (hjump : a.stillJump? = some c.line)
    (hcolor : a.write.getD color = c.color) :
    resolve strictness (depth + 1) s path a color =
      if c ∈ s.looping then .ok (none, s)
      else if c ∈ path then
        match strictness with
        | .strict => .error (loopFault c.line)
        | .permissive => .ok (none, s.markLooping c)
      else passBack c a.write (resolve strictness depth s (c :: path) (c.action s.code) c.color) := by
  simp only [resolve, hjump, hcolor, List.contains_iff_mem]
  rfl

theorem Follows.passBack {b c : Branch} {path : List Branch}
    {r : Except Fault (Option (Action Target) × Folding)}
    (h : Follows code strictness s c (b :: path) r) (hnext : b.next? code = some c)
    (hline : c.line < code.size) :
    Follows code strictness s b path (passBack c (b.action code).write r) := by
  cases h with
  | ends hlast of keeps =>
    refine .ends (.on hnext hlast) (of.put hline hlast (.inr ⟨b, c, hnext, rfl⟩)) ?_
    exact fun p hp => keeps_put (of.size ▸ hline) hlast p (keeps p hp)
  | spins hspins permissive of keeps =>
    subst permissive
    exact .spins ((Code.spins_iff_of_next? hnext).mpr hspins) rfl (of.markLooping hspins) keeps
  | rejects strict back =>
    obtain ⟨newest, rest, again, hsuffix, hcomes⟩ := back
    exact .rejects strict ⟨newest, rest, again, (List.suffix_cons c _).trans hsuffix, hcomes⟩

/-- Following a chain gives its end, or tells that it spins. The induction
is on the depth; the trail, which grows at every level, has no room for more
than `branchCount` branches. -/
theorem resolve_spec (hrange : code.InRange) :
    ∀ (depth : Nat) (s : Folding) (b : Branch) (path : List Branch),
      Of code strictness s → Trail code (b :: path) →
      code.branchCount < depth + (b :: path).length →
      Follows code strictness s b path
        (resolve strictness depth s (b :: path) (b.action s.code) b.color)
  | 0, s, b, path, _, htrail, hdepth => by
      have hle := htrail.length_le
      omega
  | depth + 1, s, b, path, hof, htrail, hdepth => by
      rcases hof.action b with horig | hend
      · rw [horig]
        cases hnext : b.next? code with
        | none =>
          rw [resolve_of_stillJump?_eq_none (Branch.next?_eq_none_iff.mp hnext)]
          exact .ends (.here hnext) hof fun _ h => h
        | some c =>
          obtain ⟨hjump, hcolor⟩ := Branch.next?_eq_some_iff.mp hnext
          rw [resolve_of_stillJump? hjump hcolor]
          split
          · next hloop =>
            have hspins := (Code.spins_iff_of_next? hnext).mpr (hof.spins c hloop)
            have hpermissive : strictness = .permissive := by
              cases hstrict : strictness with
              | permissive => rfl
              | strict => simp [hof.strict hstrict] at hloop
            exact .spins hspins hpermissive hof fun _ h => h
          · split
            · next hback =>
              have hspins := htrail.spins hnext hback
              cases strictness with
              | strict => exact .rejects rfl ⟨b, path, c, List.suffix_rfl, htrail, hnext, hback, rfl⟩
              | permissive =>
                exact .spins ((Code.spins_iff_of_next? hnext).mpr hspins) rfl
                  (hof.markLooping hspins) fun _ h => h
            · next hnew =>
              have htrail' := htrail.cons hrange hnext hnew
              have ih := resolve_spec hrange depth s c (b :: path) hof htrail'
                (by simp only [List.length_cons] at hdepth ⊢; omega)
              exact ih.passBack hnext (htrail'.lines c List.mem_cons_self)
      · rw [resolve_of_stillJump?_eq_none hend.stillJump?]
        exact .ends hend hof fun _ h => h

/-! ## The whole pass -/

/-- The branch has the action that its chain ends on, or it spins and may. -/
def Settled (code : Code) (strictness : Strictness) (s : Folding) (b : Branch) : Prop :=
  code.EndsOn b (b.action s.code) ∨ (code.Spins b ∧ strictness = .permissive)

/-- What folding from each of a list of branches gives. A rejection is for
the first of them whose chain does not end. -/
inductive Folds (code : Code) (strictness : Strictness) (s : Folding) :
    List Branch → Except Fault Folding → Prop where
  | done {starts : List Branch} {s' : Folding} (of : Of code strictness s')
      (keeps : Keeps code s s') (settled : ∀ b ∈ starts, Settled code strictness s' b) :
      Folds code strictness s starts (.ok s')
  | rejects {before after : List Branch} {b : Branch} {fault : Fault}
      (strict : strictness = .strict) (ends : ∀ p ∈ before, ∃ last, code.EndsOn p last)
      (back : ComesBack code [b] fault) :
      Folds code strictness s (before ++ b :: after) (.error fault)

theorem Settled.mono {s' : Folding} (hkeeps : Keeps code s s') {b : Branch}
    (h : Settled code strictness s b) : Settled code strictness s' b :=
  h.imp (hkeeps b) id

theorem Settled.ends_of_strict {b : Branch} (h : Settled code .strict s b) :
    code.EndsOn b (b.action s.code) :=
  h.resolve_right (by simp)

theorem Folds.error_append {xs : List Branch} {fault : Fault}
    (h : Folds code strictness s xs (.error fault)) (ys : List Branch) :
    Folds code strictness s (xs ++ ys) (.error fault) := by
  cases h with
  | rejects strict ends back =>
    rw [List.append_assoc]
    exact .rejects strict ends back

/-- Folding from some branches and then from others. -/
theorem Folds.append {xs ys : List Branch} {s₁ : Folding} {r : Except Fault Folding}
    (h₁ : Folds code strictness s xs (.ok s₁)) (h₂ : Folds code strictness s₁ ys r) :
    Folds code strictness s (xs ++ ys) r := by
  cases h₁ with
  | done of keeps settled =>
    cases h₂ with
    | done of' keeps' settled' =>
      refine .done of' (fun b hb => keeps' b (keeps b hb)) fun b hb => ?_
      rcases List.mem_append.mp hb with hb | hb
      · exact (settled b hb).mono keeps'
      · exact settled' b hb
    | rejects strict ends back =>
      rw [← List.append_assoc]
      refine .rejects strict (fun p hp => ?_) back
      rcases List.mem_append.mp hp with hp | hp
      · subst strict
        exact ⟨_, (settled p hp).ends_of_strict⟩
      · exact ends p hp

theorem Folds.of {xs : List Branch} {s' : Folding} (h : Folds code strictness s xs (.ok s')) :
    Of code strictness s' := by
  cases h with
  | done of _ _ => exact of

theorem Folds.settled {xs : List Branch} {s' : Folding}
    (h : Folds code strictness s xs (.ok s')) : ∀ b ∈ xs, Settled code strictness s' b := by
  cases h with
  | done _ _ settled => exact settled

theorem foldSlot_spec (hrange : code.InRange) (hof : Of code strictness s) {line : Nat}
    (hrun : code.CanRun line) (slot : Slot) :
    Folds code strictness s [Branch.start line slot]
      (foldSlot strictness (code.branchCount + 2) s line slot) := by
  have hspec := resolve_spec hrange (code.branchCount + 2) s (Branch.start line slot) [] hof
    (.start hrun.1 slot) (by omega)
  rw [Branch.action_start] at hspec
  unfold foldSlot
  change Follows code strictness s _ _ (resolve strictness _ s [⟨slot.standIn, line⟩] _ slot.standIn)
    at hspec
  generalize resolve strictness _ s [⟨slot.standIn, line⟩] _ slot.standIn = r at hspec
  cases hspec with
  | @ends last s' hlast of keeps =>
    have hline : line < s'.code.size := of.size ▸ hrun.1
    have hput : ({ s' with code := s'.code.setAction line slot last } : Folding) =
        s'.put (Branch.start line slot) last := by
      simp [put, Branch.start]
    simp only [hput]
    refine .done (of.put hrun.1 hlast (.inl hrun.2)) ?_ ?_
    · exact fun p hp => keeps_put hline hlast p (keeps p hp)
    · intro p hp
      obtain rfl : p = Branch.start line slot := by simpa using hp
      left
      rw [action_put_of_alike hline ⟨rfl, rfl⟩]
      exact hlast
  | spins hspins permissive of keeps =>
    exact .done of keeps (by simpa using .inr ⟨hspins, permissive⟩)
  | rejects strict back =>
    change Folds code strictness s ([] ++ [Branch.start line slot]) _
    exact .rejects strict (by simp) back

/-- The branches a line is folded from. -/
def starts (code : Code) (line : Nat) : List Branch :=
  if code.isPlaceholder line then [] else Slot.both.map (Branch.start line)

theorem foldLine_spec (hrange : code.InRange) (hof : Of code strictness s) {line : Nat}
    (hline : line < code.size) :
    Folds code strictness s (starts code line)
      (foldLine strictness (code.branchCount + 2) s line) := by
  unfold foldLine starts
  rw [Code.isPlaceholder_congr hof.kinds]
  split
  · exact .done hof (fun _ h => h) (by simp)
  · next hp =>
    have hrun : code.CanRun line := ⟨hline, by simpa using hp⟩
    have hwhite := foldSlot_spec hrange hof hrun .white
    change Folds code strictness s ([Branch.start line .white] ++ [Branch.start line .color]) _
    split
    · next hr => exact (hr ▸ hwhite).error_append _
    · next s₁ hr =>
      rw [hr] at hwhite
      exact hwhite.append (foldSlot_spec hrange hwhite.of hrun .color)

theorem foldLines_spec (hrange : code.InRange) :
    ∀ (lines : List Nat) (s : Folding), Of code strictness s →
      (∀ line ∈ lines, line < code.size) →
      Folds code strictness s (lines.flatMap (starts code))
        (foldLines strictness (code.branchCount + 2) s lines)
  | [], s, hof, _ => .done hof (fun _ h => h) (by simp)
  | line :: rest, s, hof, hlines => by
      have hfirst := foldLine_spec hrange hof (hlines line List.mem_cons_self)
      rw [List.flatMap_cons, foldLines]
      split
      · next hr => exact (hr ▸ hfirst).error_append _
      · next s₁ hr =>
        rw [hr] at hfirst
        exact hfirst.append (foldLines_spec hrange rest s₁ hfirst.of
          (fun l hl => hlines l (List.mem_cons_of_mem _ hl)))

end Folding

/-! ## Folded codes -/

namespace Code

variable {code folded : Code} {strictness : Strictness}

/-- The branches that a code is folded from, in order: white before color on
every line that holds an instruction. -/
def starts (code : Code) : List Branch :=
  (List.range code.size).flatMap (Folding.starts code)

theorem mem_starts_iff {b : Branch} :
    b ∈ code.starts ↔ ∃ line slot, code.CanRun line ∧ b = Branch.start line slot := by
  constructor
  · intro h
    obtain ⟨line, hline, hb⟩ := List.mem_flatMap.mp h
    unfold Folding.starts at hb
    split at hb
    · simp at hb
    · next hp =>
      obtain ⟨slot, -, rfl⟩ := List.mem_map.mp hb
      exact ⟨line, slot, ⟨List.mem_range.mp hline, Bool.eq_false_iff.mpr hp⟩, rfl⟩
  · rintro ⟨line, slot, hrun, rfl⟩
    refine List.mem_flatMap.mpr ⟨line, List.mem_range.mpr hrun.1, ?_⟩
    rw [Folding.starts, hrun.2]
    cases slot <;> simp [Slot.both]

theorem folds_starts (strictness : Strictness) (hrange : code.InRange) :
    Folding.Folds code strictness ⟨code, []⟩ code.starts
      (Folding.foldLines strictness (code.branchCount + 2) ⟨code, []⟩ (List.range code.size)) :=
  Folding.foldLines_spec hrange _ _ (Folding.Of.start code strictness) (by simp)

theorem exists_folding (hrange : code.InRange) (h : code.fold strictness = .ok folded) :
    ∃ s : Folding, s.code = folded ∧ Folding.Of code strictness s ∧
      ∀ line slot, code.CanRun line →
        Folding.Settled code strictness s (Branch.start line slot) := by
  have hspec := folds_starts strictness hrange
  unfold fold at h
  cases hr : Folding.foldLines strictness (code.branchCount + 2) ⟨code, []⟩
      (List.range code.size) with
  | error fault => simp [hr, Except.map] at h
  | ok s =>
    rw [hr] at h hspec
    refine ⟨s, by simpa [Except.map] using h, hspec.of, fun line slot hrun => hspec.settled _ ?_⟩
    exact mem_starts_iff.mpr ⟨line, slot, hrun, rfl⟩

/-- Folding changes no kind. -/
theorem kinds_fold (hrange : code.InRange) (h : code.fold strictness = .ok folded) :
    folded.kinds = code.kinds := by
  obtain ⟨s, rfl, of, _⟩ := exists_folding hrange h
  exact of.kinds

/-- Folding leaves an action as it is, or replaces it by the action that its
chain ends on. -/
theorem fold_action (hrange : code.InRange) (h : code.fold strictness = .ok folded) :
    code.FoldsTo folded := by
  obtain ⟨s, rfl, of, _⟩ := exists_folding hrange h
  exact of.action

/-- On a line that can run, an action is left alone only when it spins, which
no strict folding lets pass. -/
theorem fold_settled (hrange : code.InRange) (h : code.fold strictness = .ok folded) {b : Branch}
    (hrun : code.CanRun b.line) :
    code.EndsOn b (b.action folded) ∨ (code.Spins b ∧ strictness = .permissive) := by
  obtain ⟨s, rfl, _, settled⟩ := exists_folding hrange h
  have halike := Branch.alike_start b
  rcases settled b.line (Slot.of b.color) hrun with hends | ⟨hspins, hpermissive⟩
  · left
    rw [halike.action_eq] at hends
    exact hends.alike halike
  · exact .inr ⟨hspins.alike halike, hpermissive⟩

/-- A placeholder that no jump leads onto is left as it is. -/
theorem fold_placeholder (hrange : code.InRange) (h : code.fold strictness = .ok folded)
    {line : Nat} (hp : code.isPlaceholder line = true)
    (hnone : ∀ l slot, (code.action l slot).target ≠ .jump line) (slot : Slot) :
    folded.action line slot = code.action line slot := by
  obtain ⟨s, rfl, of, _⟩ := exists_folding hrange h
  rw [← Branch.action_start s.code, ← Branch.action_start code]
  refine (of.placeholder (Branch.start line slot) hp).resolve_right ?_
  rintro ⟨p, c, hnext, hline⟩
  have hjump := (Branch.next?_eq_some_iff.mp hnext).1
  rw [hline] at hjump
  exact hnone _ _ (Action.stillJump?_eq_some.mp hjump).2

/-- A rejection is for the first branch whose chain comes back. -/
theorem firstAt_of_folds_error {s : Folding} {starts : List Branch} {fault : Fault}
    (h : Folding.Folds code strictness s starts (.error fault)) :
    strictness = .strict ∧
      ∃ index, FirstAt (fun b => ComesBack code [b]) starts index fault := by
  cases h with
  | @rejects before after b fault strict ends back =>
    refine ⟨strict, before.length, ⟨b, by simp, back⟩, fun earlier hlt p hp fault' hback => ?_⟩
    rw [List.getElem?_append_left hlt] at hp
    obtain ⟨last, hlast⟩ := ends p (List.mem_of_getElem? hp)
    exact hback.spins last hlast

/-- A code is rejected under strict folding alone, and for the first of its
branches whose chain comes back to itself without moving. -/
theorem fold_eq_error_iff (hrange : code.InRange) {fault : Fault} :
    code.fold strictness = .error fault ↔
      strictness = .strict ∧
        ∃ index, FirstAt (fun b => ComesBack code [b]) code.starts index fault := by
  have hfolds := folds_starts strictness hrange
  unfold fold
  cases hr : Folding.foldLines strictness (code.branchCount + 2) ⟨code, []⟩
      (List.range code.size) with
  | error fault' =>
    rw [hr] at hfolds
    obtain ⟨hstrict, index', hfirst'⟩ := firstAt_of_folds_error hfolds
    constructor
    · intro h
      obtain rfl : fault' = fault := by simpa [Except.map] using h
      exact ⟨hstrict, index', hfirst'⟩
    · rintro ⟨-, index, hfirst⟩
      obtain ⟨-, rfl⟩ := hfirst.unique hfirst' fun _ _ _ => ComesBack.unique
      rfl
  | ok s =>
    rw [hr] at hfolds
    constructor
    · intro h
      simp [Except.map] at h
    · rintro ⟨rfl, index, ⟨b, hb, hback⟩, -⟩
      have hends := (hfolds.settled b (List.mem_of_getElem? hb)).ends_of_strict
      exact absurd hends (hback.spins _)

/-- Folding accepts a code if every chain ends that it has to end. -/
theorem exists_fold_of_ends (hrange : code.InRange)
    (h : strictness = .strict → ∀ line slot, code.CanRun line →
      ∃ last, code.EndsOn (Branch.start line slot) last) :
    ∃ folded, code.fold strictness = .ok folded := by
  cases hfold : code.fold strictness with
  | ok folded => exact ⟨folded, rfl⟩
  | error fault =>
    obtain ⟨hstrict, index, ⟨b, hb, hback⟩, -⟩ := (fold_eq_error_iff hrange).mp hfold
    obtain ⟨line, slot, hrun, rfl⟩ := mem_starts_iff.mp (List.mem_of_getElem? hb)
    obtain ⟨last, hlast⟩ := h hstrict line slot hrun
    exact absurd hlast (hback.spins last)

/-- Where the chains of two codes end alike, folding comes to actions that are
alike: the ends of the chains, or the first actions if they spin. -/
theorem fold_transfer {code' folded' : Code} (hrange : code.InRange) (hrange' : code'.InRange)
    (hfold : code.fold strictness = .ok folded) (hfold' : code'.fold strictness = .ok folded')
    {b b' : Branch} (hrun : code.CanRun b.line) (hrun' : code'.CanRun b'.line)
    {f : Action Target → Action Target} (haction : b'.action code' = f (b.action code))
    (hends : ∀ last, code.EndsOn b last → code'.EndsOn b' (f last))
    (hspins : code.Spins b → code'.Spins b') :
    b'.action folded' = f (b.action folded) := by
  rcases fold_settled hrange hfold hrun with hfolded | ⟨hspin, -⟩
  · have hlast := hends _ hfolded
    rcases fold_settled hrange' hfold' hrun' with hfolded' | ⟨hspin', -⟩
    · exact hfolded'.unique hlast
    · exact absurd hlast (hspin' _)
  · rw [(fold_action hrange hfold b).resolve_right (hspin _),
      (fold_action hrange' hfold' b').resolve_right (hspins hspin _), haction]

end Code

end PixelTurtle
