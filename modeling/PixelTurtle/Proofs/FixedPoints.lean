/-
PixelTurtle.Proofs.FixedPoints — the passes reach a fixed point after one
round.

A pass leaves a code alone in which it finds nothing to do, and it finds nothing
to do in what it made itself:

* `Code.collapse_of_canRun` — there is nothing to collapse where every jump leads
  to a line that holds an instruction. Collapsing leaves such a code behind, and
  folding keeps it so (`Code.Sound`).
* `Code.IsFolded`, `Code.fold_of_isFolded` — there is nothing to fold where every
  chain is over at once or never ends.
* `Code.isFolded_fold` — folding leaves such a code behind, from any code whose
  jumps are in range. The chains of a folded code are shortened chains of the code
  before, so those that never ended still do not (`Code.FoldsTo.spins`).
* `Code.passes_fixed` — both passes, in any order, change nothing any more.
-/
import PixelTurtle.Proofs.WellFormed

namespace PixelTurtle

/-! ## Nothing to collapse -/

namespace Collapsing

variable {s : Collapsing} {line : Nat} {slot : Slot}

theorem redirect_of_placeholder?_eq_none (h : s.placeholder? line slot = none) (depth : Nat) :
    redirect depth s line slot = s := by
  cases depth with
  | zero => rfl
  | succ depth => simp only [redirect, h]

theorem placeholder?_eq_none
    (h : ∀ next, (s.code.action line slot).target = .jump next → s.code.CanRun next) :
    s.placeholder? line slot = none := by
  cases htarget : (s.code.action line slot).target with
  | exit status => simp [placeholder?, htarget]
  | jump next => simp [placeholder?, htarget, (h next htarget).2]

end Collapsing

namespace Code

variable {code folded : Code} {strictness : Strictness}

/-- A code is its own collapse where no jump leads onto a placeholder. -/
theorem collapse_of_canRun
    (h : ∀ line slot next, (code.action line slot).target = .jump next → code.CanRun next) :
    code.collapse = code := by
  have hline : ∀ line, Collapsing.redirectLine (code.branchCount + 1) ⟨code, []⟩ line =
      ⟨code, []⟩ := by
    intro line
    have hnone : ∀ slot, Collapsing.placeholder? ⟨code, []⟩ line slot = none :=
      fun slot => Collapsing.placeholder?_eq_none (h line slot)
    rw [Collapsing.redirectLine, Collapsing.redirect_of_placeholder?_eq_none (hnone .white),
      Collapsing.redirect_of_placeholder?_eq_none (hnone .color)]
  rw [collapse, List.foldl_fixed' hline]

/-! ## Nothing to fold -/

/-- Every chain that a code is folded from is over at once, or never ends. -/
def IsFolded (code : Code) : Prop :=
  ∀ line slot, code.CanRun line →
    (Branch.start line slot).next? code = none ∨ code.Spins (Branch.start line slot)

end Code

namespace Folding

variable {code : Code} {s : Folding} {line : Nat}

/-- Following a chain that never ends finds nothing to replace. The induction is
on the depth, which may as well run out: then nothing is found either. -/
theorem resolve_of_spins :
    ∀ (depth : Nat) (s : Folding) (path : List Branch) (b : Branch), s.code = code →
      code.Spins b →
      ∃ s', resolve .permissive depth s path (b.action code) b.color = .ok (none, s') ∧
        s'.code = code
  | 0, s, path, b, hs, _ => ⟨s, rfl, hs⟩
  | depth + 1, s, path, b, hs, hspins => by
      obtain ⟨c, hnext, hc⟩ := hspins.next?
      obtain ⟨hjump, hcolor⟩ := Branch.next?_eq_some_iff.mp hnext
      rw [resolve_of_stillJump? hjump hcolor]
      split
      · exact ⟨s, rfl, hs⟩
      · split
        · exact ⟨s.markLooping c, rfl, hs⟩
        · obtain ⟨s', hresolve, hs'⟩ := resolve_of_spins depth s (c :: path) c hs hc
          exact ⟨s'.markLooping c, by rw [hs, hresolve, passBack], hs'⟩

theorem foldSlot_of_isFolded (h : code.IsFolded) (hs : s.code = code) (hrun : code.CanRun line)
    (slot : Slot) (depth : Nat) :
    ∃ s', foldSlot .permissive (depth + 1) s line slot = .ok s' ∧ s'.code = code := by
  have haction : s.code.action line slot = (Branch.start line slot).action code := by
    rw [Branch.action_start, hs]
  unfold foldSlot
  rcases h line slot hrun with hend | hspins
  · -- the action is found at once, and put where it stands
    rw [Branch.next?_eq_none_iff, Branch.action_start, ← hs] at hend
    rw [resolve_of_stillJump?_eq_none hend]
    exact ⟨_, rfl, by rw [Code.setAction_action, hs]⟩
  · obtain ⟨s', hresolve, hs'⟩ :=
      resolve_of_spins (depth + 1) s [Branch.start line slot] _ hs hspins
    change resolve .permissive (depth + 1) s [⟨slot.standIn, line⟩] _ slot.standIn = _ at hresolve
    rw [haction, hresolve]
    exact ⟨s', rfl, hs'⟩

theorem foldLine_of_isFolded (h : code.IsFolded) (hs : s.code = code) (hline : line < code.size)
    (depth : Nat) : ∃ s', foldLine .permissive (depth + 1) s line = .ok s' ∧ s'.code = code := by
  unfold foldLine
  rw [hs]
  split
  · exact ⟨s, rfl, hs⟩
  · next hp =>
    have hrun : code.CanRun line := ⟨hline, by simpa using hp⟩
    obtain ⟨s₁, hwhite, hs₁⟩ := foldSlot_of_isFolded h hs hrun .white depth
    rw [hwhite]
    exact foldSlot_of_isFolded h hs₁ hrun .color depth

theorem foldLines_of_isFolded (h : code.IsFolded) (depth : Nat) :
    ∀ (lines : List Nat) (s : Folding), s.code = code → (∀ line ∈ lines, line < code.size) →
      ∃ s', foldLines .permissive (depth + 1) s lines = .ok s' ∧ s'.code = code
  | [], s, hs, _ => ⟨s, rfl, hs⟩
  | line :: rest, s, hs, hlines => by
      rw [List.forall_mem_cons] at hlines
      obtain ⟨s₁, hfirst, hs₁⟩ := foldLine_of_isFolded h hs hlines.1 depth
      rw [foldLines, hfirst]
      exact foldLines_of_isFolded h depth rest s₁ hs₁ hlines.2

end Folding

namespace Code

variable {code folded : Code} {strictness : Strictness}

/-- A code is its own folding where there is nothing to fold. -/
theorem fold_of_isFolded (h : code.IsFolded) : code.fold .permissive = .ok code := by
  obtain ⟨s, hfold, rfl⟩ := Folding.foldLines_of_isFolded h (code.branchCount + 1)
    (List.range code.size) ⟨code, []⟩ rfl (by simp)
  rw [fold, hfold]
  rfl

/-! ## What folding leaves behind -/

/-- A chain that ends after some of its actions were folded ended before. -/
theorem FoldsTo.exists_endsOn (h : code.FoldsTo folded) {b : Branch} {last : Action Target}
    (hlast : folded.EndsOn b last) : ∃ last', code.EndsOn b last' := by
  induction hlast with
  | @here b hnone =>
    rcases h b with hsame | hends
    · rw [Branch.next?_eq_none_iff, hsame, ← Branch.next?_eq_none_iff] at hnone
      exact ⟨_, .here hnone⟩
    · exact ⟨_, hends⟩
  | @on b c last hnext _ ih =>
    rcases h b with hsame | hends
    · obtain ⟨last', hlast'⟩ := ih
      rw [Branch.next?, hsame] at hnext
      exact ⟨_, .on hnext hlast'⟩
    · exact ⟨_, hends⟩

/-- A chain that never ends does not end once other chains were folded. -/
theorem FoldsTo.spins (h : code.FoldsTo folded) {b : Branch} (hspins : code.Spins b) :
    folded.Spins b := by
  intro last hlast
  obtain ⟨last', hlast'⟩ := h.exists_endsOn hlast
  exact hspins last' hlast'

/-- In a folded code there is nothing to fold. -/
theorem isFolded_fold (hrange : code.InRange) (h : code.fold strictness = .ok folded) :
    folded.IsFolded := by
  intro line slot hrun
  have hrun' : code.CanRun line := (canRun_congr (kinds_fold hrange h) line).mp hrun
  rcases fold_settled hrange h (b := Branch.start line slot) hrun' with hends | ⟨hspins, -⟩
  · exact .inl (Branch.next?_eq_none_iff.mpr hends.stillJump?)
  · exact .inr ((fold_action hrange h).spins hspins)

/-- Permissive folding is done after one time. -/
theorem exists_fold_fixed (hrange : code.InRange) :
    ∃ folded, code.fold .permissive = .ok folded ∧ folded.fold .permissive = .ok folded := by
  have hnever : Strictness.permissive ≠ .strict := by decide
  obtain ⟨folded, hfold⟩ := exists_fold_of_ends hrange fun heq => absurd heq hnever
  exact ⟨folded, hfold, fold_of_isFolded (isFolded_fold hrange hfold)⟩

/-- The passes reach a fixed point after one round. Folding permissively what was
folded permissively changes nothing, for any code whose jumps are in range. For
the linked code of a source neither pass changes anything in what the two of them
made, and collapsing changes nothing in what it made itself. -/
theorem passes_fixed :
    (∀ code : Code, code.InRange →
      ∃ folded, code.fold .permissive = .ok folded ∧ folded.fold .permissive = .ok folded) ∧
    ∀ (dialect : Dialect) (source : String) (d : Draft) (linked : Code),
      Draft.ofSource dialect source = .ok d → d.link = .ok linked →
      ∃ folded, linked.collapse.fold .permissive = .ok folded ∧
        linked.collapse.collapse = linked.collapse ∧ folded.collapse = folded ∧
        folded.fold .permissive = .ok folded := by
  refine ⟨fun code hrange => exists_fold_fixed hrange, ?_⟩
  intro dialect source d linked hd hlinked
  have hsound := (Program.linked_of_ofSource hd hlinked).collapse
  obtain ⟨folded, hfold, hagain⟩ := exists_fold_fixed hsound.inRange
  exact ⟨folded, hfold, collapse_of_canRun hsound.jumps,
    collapse_of_canRun (hsound.fold hfold).jumps, hagain⟩

/-- A code whose folding runs through a placeholder that it never starts from, and
a source with a placeholder, a chain that ends and one that spins. -/
theorem passes_fixed_turns :
    (∃ folded, fold .permissive
        #[⟨.goOn (.jump 1), .goOn (.jump 0), .conditional⟩,
          ⟨⟨none, .up, .exit 0⟩, .goOn (.jump 2), .placeholder⟩,
          ⟨.goOn (.jump 1), .goOn (.jump 2), .conditional⟩] = .ok folded ∧
      folded.fold .permissive = .ok folded) ∧
    ∃ d linked folded,
      Draft.ofSource .palette "a: if white goto c else goto b\nb: repeat\n\nc: write red up" =
        .ok d ∧
      d.link = .ok linked ∧ linked.collapse.fold .permissive = .ok folded ∧
      linked.collapse.collapse = linked.collapse ∧ folded.collapse = folded ∧
      folded.fold .permissive = .ok folded := by
  constructor
  · refine passes_fixed.1 _ ?_
    rintro (_ | _ | _ | line) (_ | _) next h <;>
      simp_all [action, Action.goOn, Instruction.action] <;> omega
  · obtain ⟨d, linked, hd, hlinked⟩ : ∃ d linked,
        Draft.ofSource .palette "a: if white goto c else goto b\nb: repeat\n\nc: write red up" =
          .ok d ∧ d.link = .ok linked := ⟨_, _, rfl, rfl⟩
    obtain ⟨folded, h⟩ := passes_fixed.2 .palette _ d linked hd hlinked
    exact ⟨d, linked, folded, hd, hlinked, h⟩

end Code

end PixelTurtle
