/-
PixelTurtle.Proofs.Chains — chains of actions that jump without moving the
cursor.

`Branch.next?` is one step of a chain: the branch that control passes to
while the cursor stands still. `Code.EndsOn code b last` says that the chain
from `b` ends, and that `last` is the action it ends on, with the last write
along the way. A branch whose chain does not end spins (`Code.Spins`).

A program sees one bit of a pixel, so branches whose colors select the same
slot have the same chain (`Code.EndsOn.alike`). A chain that comes back to a
branch of its own trail spins (`Trail.spins`).
-/
import PixelTurtle.Code.Fold
import PixelTurtle.Proofs.Placeholders

namespace PixelTurtle

open StateTransition

/-! ## Chains -/

namespace Branch

/-- The action that a branch selects. -/
def action (code : Code) (b : Branch) : Action Target :=
  code.action b.line (Slot.of b.color)

/-- The branch that control passes to without moving the cursor. -/
def next? (code : Code) (b : Branch) : Option Branch :=
  (b.action code).stillJump?.map (fun line => ⟨(b.action code).write.getD b.color, line⟩)

theorem next?_eq_some_iff {code : Code} {b c : Branch} :
    b.next? code = some c ↔
      (b.action code).stillJump? = some c.line ∧ (b.action code).write.getD b.color = c.color := by
  obtain ⟨color, line⟩ := c
  simp [next?, and_comm]

theorem next?_eq_none_iff {code : Code} {b : Branch} :
    b.next? code = none ↔ (b.action code).stillJump? = none := by
  simp [next?]

/-- The branch of a slot's stand-in on a line. -/
def start (line : Nat) (slot : Slot) : Branch :=
  ⟨slot.standIn, line⟩

@[simp] theorem action_start (code : Code) (line : Nat) (slot : Slot) :
    (start line slot).action code = code.action line slot := by
  simp [start, action]

/-- Branches that a program cannot tell apart. -/
def Alike (b b' : Branch) : Prop :=
  b.line = b'.line ∧ Slot.of b.color = Slot.of b'.color

theorem Alike.symm {b b' : Branch} (h : Alike b b') : Alike b' b :=
  ⟨h.1.symm, h.2.symm⟩

theorem Alike.action_eq {b b' : Branch} (h : Alike b b') (code : Code) :
    b.action code = b'.action code := by
  rw [action, action, h.1, h.2]

theorem alike_start (b : Branch) : Alike (start b.line (Slot.of b.color)) b :=
  ⟨rfl, Slot.of_standIn _⟩

/-- Branches that are alike pass on to branches that are alike. -/
theorem Alike.next? {b b' : Branch} (h : Alike b b') {code : Code} {c : Branch}
    (hc : b.next? code = some c) : ∃ c', b'.next? code = some c' ∧ Alike c c' := by
  obtain ⟨hline, hcolor⟩ := next?_eq_some_iff.mp hc
  rw [h.action_eq code] at hline hcolor
  refine ⟨⟨(b'.action code).write.getD b'.color, c.line⟩, next?_eq_some_iff.mpr ⟨hline, rfl⟩,
    rfl, ?_⟩
  rw [← hcolor]
  cases (b'.action code).write with
  | none => exact h.2
  | some color => rfl

end Branch

namespace Action

/-- The action that ends a chain, with the write of an action before it
where it has none of its own. -/
def carry (last : Action Target) (write : Option Color) : Action Target :=
  { last with write := last.write.or write }

@[simp] theorem stillJump?_carry (last : Action Target) (write : Option Color) :
    (last.carry write).stillJump? = last.stillJump? := rfl

theorem stillJump?_eq_some {a : Action Target} {line : Nat} :
    a.stillJump? = some line ↔ a.direction = .nowhere ∧ a.target = .jump line := by
  obtain ⟨write, direction, target⟩ := a
  cases direction <;> cases target <;> simp [stillJump?]

end Action

namespace Code

/-- The chain from a branch ends, on this action. -/
inductive EndsOn (code : Code) : Branch → Action Target → Prop where
  | here {b : Branch} (h : b.next? code = none) : EndsOn code b (b.action code)
  | on {b c : Branch} {last : Action Target} (h : b.next? code = some c)
      (rest : EndsOn code c last) : EndsOn code b (last.carry (b.action code).write)

/-- The chain from a branch never ends. -/
def Spins (code : Code) (b : Branch) : Prop :=
  ∀ last, ¬ code.EndsOn b last

/-- Every action of the one code is as in the other, or it is what its chain
there ends on. -/
def FoldsTo (code folded : Code) : Prop :=
  ∀ b : Branch, b.action folded = b.action code ∨ code.EndsOn b (b.action folded)

variable {code : Code} {b : Branch}

/-- A chain ends on an action that moves or exits. -/
theorem EndsOn.stillJump? {last : Action Target} (h : code.EndsOn b last) :
    last.stillJump? = none := by
  induction h with
  | here h => exact Branch.next?_eq_none_iff.mp h
  | on _ _ ih => rw [Action.stillJump?_carry, ih]

/-- Branches that are alike have the same chain. -/
theorem EndsOn.alike {last : Action Target} (h : code.EndsOn b last) {b' : Branch}
    (hb : b.Alike b') : code.EndsOn b' last := by
  induction h generalizing b' with
  | here h =>
    rw [hb.action_eq code]
    rw [Branch.next?_eq_none_iff, hb.action_eq code] at h
    exact .here (Branch.next?_eq_none_iff.mpr h)
  | on h _ ih =>
    obtain ⟨c', hc', halike⟩ := hb.next? h
    rw [hb.action_eq code]
    exact .on hc' (ih halike)

theorem Spins.alike (h : code.Spins b) {b' : Branch} (hb : b.Alike b') : code.Spins b' :=
  fun last hlast => h last (hlast.alike hb.symm)

/-- A chain has one end. -/
theorem EndsOn.unique {last last' : Action Target} (h : code.EndsOn b last)
    (h' : code.EndsOn b last') : last = last' := by
  induction h generalizing last' with
  | here h =>
    cases h' with
    | here _ => rfl
    | on hc _ => simp [h] at hc
  | on hc _ ih =>
    cases h' with
    | here h => simp [h] at hc
    | on hc' rest' =>
      obtain rfl := Option.some.inj (hc.symm.trans hc')
      rw [ih rest']

/-- A chain that ends never comes back to where it was. -/
theorem EndsOn.not_reaches₁ {last : Action Target} (h : code.EndsOn b last) :
    ¬ Reaches₁ (Branch.next? code) b b := by
  obtain ⟨e, he⟩ : ∃ e, e ∈ eval (Branch.next? code) b := by
    induction h with
    | here h => exact ⟨_, mem_eval.mpr ⟨.refl, h⟩⟩
    | on hc _ ih =>
      obtain ⟨e, he⟩ := ih
      exact ⟨e, by rwa [reaches_eval (.single hc)]⟩
  exact not_reaches₁_self he

/-- A branch that passes on spins exactly when the branch it passes to
does. -/
theorem spins_iff_of_next? {c : Branch} (h : b.next? code = some c) :
    code.Spins b ↔ code.Spins c := by
  constructor
  · intro hb last hlast
    exact hb _ (.on h hlast)
  · intro hc last hlast
    cases hlast with
    | here hnone => simp [hnone] at h
    | on hc' rest =>
      obtain rfl := Option.some.inj (hc'.symm.trans h)
      exact hc _ rest

/-- A chain that leads to a branch that spins does so itself. -/
theorem Spins.of_reaches {c : Branch} (h : Reaches (Branch.next? code) b c) (hc : code.Spins c) :
    code.Spins b := by
  induction h using Relation.ReflTransGen.head_induction_on with
  | refl => exact hc
  | head hnext _ ih => exact (spins_iff_of_next? hnext).mpr ih

/-- A branch that spins always passes on. -/
theorem Spins.next? (h : code.Spins b) : ∃ c, b.next? code = some c ∧ code.Spins c := by
  cases hc : b.next? code with
  | none => exact absurd (.here hc) (h _)
  | some c => exact ⟨c, rfl, (spins_iff_of_next? hc).mp h⟩

end Code

/-! ## Trails

The path of a chain being followed, newest branch first. -/

/-- The branches of a chain up to its newest, all different and all on lines
of the code. -/
structure Trail (code : Code) (path : List Branch) : Prop where
  chain : path.IsChain (fun newer older => older.next? code = some newer)
  nodup : path.Nodup
  lines : ∀ b ∈ path, b.line < code.size

namespace Trail

variable {code : Code} {b : Branch} {path : List Branch}

/-- Every branch of a trail leads to the newest. -/
theorem reaches (h : Trail code (b :: path)) {p : Branch} (hp : p ∈ b :: path) :
    Reaches (Branch.next? code) p b := by
  have hchain := h.chain
  clear h
  induction path generalizing b with
  | nil =>
    obtain rfl : p = b := by simpa using hp
    exact .refl
  | cons c rest ih =>
    rw [List.isChain_cons_cons] at hchain
    rcases List.mem_cons.mp hp with rfl | hp
    · exact .refl
    · exact (ih hp hchain.2).tail hchain.1

theorem start {line : Nat} (h : line < code.size) (slot : Slot) :
    Trail code [Branch.start line slot] where
  chain := .singleton _
  nodup := List.nodup_singleton _
  lines := by simpa [Branch.start] using h

/-- A trail grows by the next branch of its chain. -/
theorem cons (h : Trail code (b :: path)) (hrange : code.InRange) {c : Branch}
    (hc : b.next? code = some c) (hnew : c ∉ b :: path) : Trail code (c :: b :: path) where
  chain := List.isChain_cons_cons.mpr ⟨hc, h.chain⟩
  nodup := List.nodup_cons.mpr ⟨hnew, h.nodup⟩
  lines := by
    intro p hp
    rcases List.mem_cons.mp hp with rfl | hp
    · have hjump := (Branch.next?_eq_some_iff.mp hc).1
      exact hrange b.line _ _ (Action.stillJump?_eq_some.mp hjump).2
    · exact h.lines p hp

theorem length_le (h : Trail code path) : path.length ≤ code.branchCount :=
  Branch.length_le h.nodup h.lines

/-- A chain that comes back to its own trail spins. -/
theorem spins (h : Trail code (b :: path)) {c : Branch} (hc : b.next? code = some c)
    (hmem : c ∈ b :: path) : code.Spins c :=
  fun _ hlast => hlast.not_reaches₁ (Relation.TransGen.tail'_iff.mpr ⟨b, h.reaches hmem, hc⟩)

/-- A chain passes on in one way, so the longer of two that begin on one branch
goes on from the shorter. -/
theorem suffix_of_length_le {xs ys : List Branch}
    (hx : (xs ++ [b]).IsChain (fun newer older => older.next? code = some newer))
    (hy : (ys ++ [b]).IsChain (fun newer older => older.next? code = some newer))
    (hle : xs.length ≤ ys.length) : xs ++ [b] <:+ ys ++ [b] := by
  induction ys generalizing xs with
  | nil =>
    obtain rfl : xs = [] := by simpa using hle
    exact List.suffix_rfl
  | cons y ys ih =>
    rcases Nat.lt_or_eq_of_le hle with hlt | heq
    · exact (ih hx hy.tail (Nat.le_of_lt_succ hlt)).trans (List.suffix_cons y _)
    · -- of one length, so equal up to the newest branch, which both pass on to
      cases xs with
      | nil => simp at heq
      | cons x xs =>
        have hlength : xs.length = ys.length := by simpa using heq
        have hrest : xs ++ [b] = ys ++ [b] :=
          (ih hx.tail hy.tail (Nat.le_of_eq hlength)).eq_of_length (by simp [hlength])
        obtain rfl : xs = ys := by simpa using hrest
        obtain ⟨newest, older, hpath⟩ := List.exists_cons_of_ne_nil
          (show xs ++ [b] ≠ [] by simp)
        rw [List.cons_append, hpath, List.isChain_cons_cons] at hx hy
        obtain rfl : x = y := Option.some.inj (hx.1.symm.trans hy.1)
        exact List.suffix_rfl

/-- A trail that comes back ends there: no trail of the same chain is longer. -/
theorem eq_of_suffix {newest newest' c : Branch} {older older' : List Branch}
    (h : Trail code (newest' :: older')) (hsuffix : newest :: older <:+ newest' :: older')
    (hc : newest.next? code = some c) (hback : c ∈ newest :: older) :
    newest :: older = newest' :: older' := by
  obtain ⟨more, hmore⟩ := hsuffix
  rcases List.eq_nil_or_concat more with rfl | ⟨most, next, rfl⟩
  · exact hmore
  · -- the branch after the newest would be `c`, which is there already
    exfalso
    have hchain := h.chain
    have hnodup := h.nodup
    rw [← hmore, List.concat_eq_append, List.append_assoc, List.singleton_append] at hchain hnodup
    have hnext : next = c := by
      have hstep := (List.isChain_cons_cons.mp hchain.right_of_append).1
      exact Option.some.inj (hstep.symm.trans hc)
    have hnew := (List.nodup_cons.mp hnodup.of_append_right).1
    exact hnew (hnext ▸ hback)

end Trail

/-- Following the chain of `path` on, it comes back to a branch of its own
trail: that branch is on the line of the fault. -/
def ComesBack (code : Code) (path : List Branch) (fault : Fault) : Prop :=
  ∃ b rest c, path <:+ b :: rest ∧ Trail code (b :: rest) ∧ b.next? code = some c ∧
    c ∈ b :: rest ∧ fault = Folding.loopFault c.line

namespace ComesBack

variable {code : Code} {b : Branch} {fault fault' : Fault}

theorem spins (h : ComesBack code [b] fault) : code.Spins b := by
  obtain ⟨newest, older, c, hsuffix, htrail, hnext, hback, -⟩ := h
  have hb : b ∈ newest :: older := hsuffix.subset (by simp)
  exact .of_reaches ((htrail.reaches hb).tail hnext) (htrail.spins hnext hback)

/-- There is one branch that a chain comes back to first. -/
theorem unique (h : ComesBack code [b] fault) (h' : ComesBack code [b] fault') :
    fault = fault' := by
  obtain ⟨newest, older, c, ⟨xs, hxs⟩, htrail, hnext, hback, rfl⟩ := h
  obtain ⟨newest', older', c', ⟨ys, hys⟩, htrail', hnext', hback', rfl⟩ := h'
  have heq : newest :: older = newest' :: older' := by
    have hchain := htrail.chain
    have hchain' := htrail'.chain
    rw [← hxs] at hchain
    rw [← hys] at hchain'
    rcases Nat.le_total xs.length ys.length with hle | hle
    · have hsuffix := Trail.suffix_of_length_le hchain hchain' hle
      rw [hxs, hys] at hsuffix
      exact htrail'.eq_of_suffix hsuffix hnext hback
    · have hsuffix := Trail.suffix_of_length_le hchain' hchain hle
      rw [hxs, hys] at hsuffix
      exact (htrail.eq_of_suffix hsuffix hnext' hback').symm
  obtain rfl : newest = newest' := (List.cons.inj heq).1
  obtain rfl : c = c' := Option.some.inj (hnext.symm.trans hnext')
  rfl

end ComesBack

end PixelTurtle
