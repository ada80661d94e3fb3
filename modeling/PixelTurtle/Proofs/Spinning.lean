/-
PixelTurtle.Proofs.Spinning — in a folded program, standing still means
spinning forever.

On a line that can run, a folded action either moves or exits, or it was left
alone because its chain never ends. `Config.Spinning` says of a run that it is
on such a chain. The chain is one of the code before folding: all its actions
were left alone, so the folded code goes round it in the same way
(`Config.Spinning.next`). A strict folding leaves no such chain.
-/
import PixelTurtle.Proofs.Run

namespace PixelTurtle

/-- The two cells have a side in common. -/
def Cursor.Beside (a b : Cursor) : Prop :=
  (a.x = b.x ∧ (a.y + 1 = b.y ∨ b.y + 1 = a.y)) ∨ (a.y = b.y ∧ (a.x + 1 = b.x ∨ b.x + 1 = a.x))

instance (a b : Cursor) : Decidable (a.Beside b) :=
  inferInstanceAs (Decidable (_ ∨ _))

theorem Cursor.Beside.ne {a b : Cursor} (h : a.Beside b) : b ≠ a := by
  rintro rfl
  unfold Beside at h
  omega

/-- A move in a direction leads to the next cell, or off the canvas. -/
theorem Cursor.beside_of_move? {a b : Cursor} {direction : Direction} {width height : Nat}
    (hdirection : direction ≠ .nowhere) (h : a.move? direction width height = some b) :
    a.Beside b := by
  cases direction <;> simp only [Cursor.move?] at h
  case nowhere => exact absurd rfl hdirection
  all_goals
    split at h
    · obtain rfl := Option.some.inj h
      unfold Beside
      dsimp only
      omega
    · simp at h

-- a corner does not count as a side
example : (⟨1, 0⟩ : Cursor).Beside ⟨0, 0⟩ ∧ ¬ (⟨1, 0⟩ : Cursor).Beside ⟨0, 1⟩ := by decide

namespace Config

variable {code folded : Code} {c : Config}

/-- An action that does not stand still and jump ends the run or moves. -/
theorem perform_of_stillJump?_eq_none {a : Action Target} (h : a.stillJump? = none) :
    (c.perform a).isExited = true ∨ c.cursor.Beside (c.perform a).cursor := by
  unfold perform
  cases hmove : c.cursor.move? a.direction c.canvas.width c.canvas.height with
  | none => exact .inl rfl
  | some cursor =>
    cases htarget : a.target with
    | exit status => exact .inl rfl
    | jump line =>
      right
      refine Cursor.beside_of_move? ?_ hmove
      intro hnowhere
      have hsome : a.stillJump? = some line := Action.stillJump?_eq_some.mpr ⟨hnowhere, htarget⟩
      simp [h] at hsome

/-- The run is on a chain that never ends. -/
structure Spinning (code : Code) (c : Config) : Prop where
  onCanvas : c.OnCanvas
  spins : ∃ line, c.place = .jump line ∧ code.Spins ⟨c.pixel, line⟩

theorem Spinning.isExited (h : c.Spinning code) : c.isExited = false := by
  obtain ⟨line, hplace, -⟩ := h.spins
  exact isExited_eq_false.mpr ⟨line, hplace⟩

/-- Each instruction of such a chain leads on to the next of it. -/
theorem Spinning.next (haction : code.FoldsTo folded) (h : c.Spinning code) :
    (c.next folded).Spinning code ∧ (c.next folded).cursor = c.cursor := by
  obtain ⟨line, hplace, hspins⟩ := h.spins
  obtain ⟨b, hnext, hspins'⟩ := hspins.next?
  obtain ⟨hjump, hcolor⟩ := Branch.next?_eq_some_iff.mp hnext
  have hsame := (haction ⟨c.pixel, line⟩).resolve_right (hspins _)
  have hconfig : c.next folded =
      ⟨c.painted (Branch.action code ⟨c.pixel, line⟩).write, c.cursor, .jump b.line⟩ := by
    rw [next_of_jump hplace, hsame]
    exact perform_of_stillJump? hjump
  refine ⟨⟨?_, b.line, ?_, ?_⟩, ?_⟩
  · rw [next_of_jump hplace]
    exact h.onCanvas.perform _
  · rw [hconfig]
  · have hpixel : (c.next folded).pixel = b.color := by
      rw [hconfig, pixel_painted h.onCanvas, hcolor]
    rw [hpixel]
    exact hspins'
  · rw [hconfig]

theorem Spinning.iterate (haction : code.FoldsTo folded) (h : c.Spinning code) (n : Nat) :
    ((Config.next folded)^[n] c).Spinning code ∧
      ((Config.next folded)^[n] c).cursor = c.cursor := by
  induction n with
  | zero => exact ⟨h, rfl⟩
  | succ n ih =>
    obtain ⟨hspinning, hcursor⟩ := ih
    have hnext := hspinning.next haction
    rw [Function.iterate_succ_apply']
    exact ⟨hnext.1, hnext.2.trans hcursor⟩

/-- An instruction of a folded code ends the run, moves or is part of a chain
that never ends. -/
theorem next_fold_cases {strictness : Strictness} (hrange : code.InRange)
    (hfold : code.fold strictness = .ok folded) (hc : c.Valid folded)
    (halive : c.isExited = false) :
    ((c.next folded).isExited = true ∨ c.cursor.Beside (c.next folded).cursor) ∨
      c.Spinning code ∧ strictness = .permissive := by
  obtain ⟨line, hplace⟩ := isExited_eq_false.mp halive
  have hrun := (Code.canRun_congr (Code.kinds_fold hrange hfold) line).mp (hc.canRun line hplace)
  rcases Code.fold_settled hrange hfold (b := ⟨c.pixel, line⟩) hrun with
    hends | ⟨hspins, hpermissive⟩
  · left
    rw [next_of_jump hplace]
    exact perform_of_stillJump?_eq_none hends.stillJump?
  · exact .inr ⟨⟨hc.onCanvas, line, hplace, hspins⟩, hpermissive⟩

theorem spinning_of_still {strictness : Strictness} (hrange : code.InRange)
    (hfold : code.fold strictness = .ok folded) (hc : c.Valid folded)
    (halive : (c.next folded).isExited = false) (hstill : (c.next folded).cursor = c.cursor) :
    c.Spinning code := by
  rcases next_fold_cases hrange hfold hc (isExited_of_next halive) with
    (hexited | hbeside) | ⟨hspinning, -⟩
  · simp [halive] at hexited
  · exact absurd hstill hbeside.ne
  · exact hspinning

end Config

namespace Program

variable {options : CompileOptions} {source : String} {p : Program} {m : Machine}

/-- In an optimized program an instruction that stands still is never left
behind, whatever is done short of a reset; in a strict one there is none. -/
theorem still_spins (hoptimize : options.optimize = true) (h : compile options source = .ok p)
    (hm : m.Runs p) :
    ((m.after 1).isExited = false → (m.after 1).cursor = m.cursor →
      ∀ further : List Machine.Operation, (∀ o ∈ further, o.isReset = false) →
        ((m.after 1).perform further).isExited = false ∧
          ((m.after 1).perform further).cursor = m.cursor) ∧
      (options.effectiveStrictness = .strict → m.isExited = false →
        (m.after 1).isExited = true ∨ m.cursor.Beside (m.after 1).cursor) := by
  have hsound := sound_of_compile h
  have hvalid := hm.valid hsound
  have hprogram := hm.program_eq
  obtain ⟨d, linked, folded, hd, hlinked, hfold, rfl⟩ := compile_eq_ok_iff.mp h
  rw [passes_of_optimize hoptimize] at hfold
  have hrange := (linked_of_ofSource hd hlinked).collapse.inRange
  have hconfig : (m.after 1).config = m.config.next folded := by
    rw [Machine.config_after, hprogram, Function.iterate_one]
  constructor
  · intro halive hstill further hfurther
    rw [← Machine.isExited_config, hconfig] at halive
    change (m.after 1).config.cursor = m.config.cursor at hstill
    rw [hconfig] at hstill
    have hspinning := Config.spinning_of_still hrange hfold hvalid halive hstill
    -- what is done further are instructions of the chain after the one that stood still
    obtain ⟨n, hn⟩ := Machine.config_perform (m.after 1) hfurther
    rw [Machine.program_after, hprogram, hconfig, ← Function.iterate_succ_apply] at hn
    obtain ⟨hend, hsame⟩ := hspinning.iterate (Code.fold_action hrange hfold) (n + 1)
    rw [← hn] at hend hsame
    refine ⟨?_, hsame⟩
    rw [← Machine.isExited_config]
    exact hend.isExited
  · intro hstrict halive
    rw [← Machine.isExited_config] at halive ⊢
    rcases Config.next_fold_cases hrange hfold hvalid halive with hcases | ⟨-, hpermissive⟩
    · rwa [← hconfig] at hcases
    · simp [hstrict] at hpermissive

/-- Two lines that take turns painting one cell, and a strict program that
leaves its cell at once. -/
theorem still_spins_turns :
    (∃ p canvas,
      compile ⟨.palette, true, none⟩ "a: write red goto b\nb: write blue goto a" = .ok p ∧
      Canvas.blank 2 1 = .ok canvas ∧
      ∀ further : List Machine.Operation, (∀ o ∈ further, o.isReset = false) →
        (((Machine.start p canvas).after 1).perform further).isExited = false ∧
          (((Machine.start p canvas).after 1).perform further).cursor = .origin) ∧
      ∃ p canvas,
        compile ⟨.palette, true, some .strict⟩ "a: write red goto b\nb: right goto a" = .ok p ∧
        Canvas.blank 2 1 = .ok canvas ∧
        (((Machine.start p canvas).after 1).isExited = true ∨
          Cursor.origin.Beside ((Machine.start p canvas).after 1).cursor) := by
  constructor
  · obtain ⟨p, canvas, hp, hcanvas, halive, hsame, horigin⟩ : ∃ p canvas,
        compile ⟨.palette, true, none⟩ "a: write red goto b\nb: write blue goto a" = .ok p ∧
        Canvas.blank 2 1 = .ok canvas ∧ ((Machine.start p canvas).after 1).isExited = false ∧
        ((Machine.start p canvas).after 1).cursor = (Machine.start p canvas).cursor ∧
        (Machine.start p canvas).cursor = .origin := ⟨_, _, rfl, rfl, rfl, rfl, rfl⟩
    refine ⟨p, canvas, hp, hcanvas, ?_⟩
    rw [← horigin]
    exact (still_spins rfl hp ⟨canvas, [], rfl⟩).1 halive hsame
  · obtain ⟨p, canvas, hp, hcanvas, halive, horigin⟩ : ∃ p canvas,
        compile ⟨.palette, true, some .strict⟩ "a: write red goto b\nb: right goto a" = .ok p ∧
        Canvas.blank 2 1 = .ok canvas ∧ (Machine.start p canvas).isExited = false ∧
        (Machine.start p canvas).cursor = .origin := ⟨_, _, rfl, rfl, rfl, rfl⟩
    refine ⟨p, canvas, hp, hcanvas, ?_⟩
    rw [← horigin]
    exact (still_spins rfl hp ⟨canvas, [], rfl⟩).2 rfl halive

end Program

end PixelTurtle
