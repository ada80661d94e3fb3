/-
PixelTurtle.Proofs.Lines — reading the lines of a code of which one action
was replaced.

* `Code.action_setAction` — the replaced action reads back, all others are
  as before.
* `Code.kinds_setAction` — the kinds of the lines never change. The size of
  a code and its placeholders are functions of its kinds, so a pass that
  keeps `Code.kinds` keeps both.
* `Code.CanRun` — the lines a run may stand on.
-/
import PixelTurtle.Coverage

namespace PixelTurtle.Code

/-! ## Replacing an action -/

/-- The action of a line that exists. -/
theorem action_of_lt {code : Code} {line : Nat} (h : line < code.size) (slot : Slot) :
    code.action line slot = (code[line]).action slot := by
  simp [action, h]

/-- Past the last line a program ends. -/
theorem action_of_ge {code : Code} {line : Nat} (h : code.size ≤ line) (slot : Slot) :
    code.action line slot = .goOn (.exit 0) := by
  simp [action, h]

/-- Replacing the action of a line for a slot changes what is read there
and nowhere else. -/
theorem action_setAction (code : Code) {line : Nat} (h : line < code.size) (slot : Slot)
    (a : Action Target) (line' : Nat) (slot' : Slot) :
    (code.setAction line slot a).action line' slot' =
      if line' = line ∧ slot' = slot then a else code.action line' slot' := by
  by_cases hline : line' = line
  · subst hline
    rw [action_of_lt (by simpa using h), action_of_lt h]
    by_cases hslot : slot' = slot
    · subst hslot
      simp [setAction, Array.getElem_modify]
    · have hne : slot ≠ slot' := fun e => hslot e.symm
      simp [setAction, Array.getElem_modify, hslot, Instruction.action_setAction_of_ne _ a hne]
  · have hne : line ≠ line' := fun e => hline e.symm
    simp [action, setAction, Array.getElem?_modify, hne, hline]

/-- Replacing an action by itself changes nothing. -/
theorem setAction_action (code : Code) (line : Nat) (slot : Slot) :
    code.setAction line slot (code.action line slot) = code := by
  apply Array.ext_getElem?
  intro i
  rw [setAction, Array.getElem?_modify]
  split
  · next hi =>
    subst hi
    cases hline : code[line]? with
    | none => rfl
    | some instruction => cases slot <;> simp [action, hline, Instruction.setAction, Instruction.action]
  · rfl

/-- The kinds of the lines do not change with their actions. -/
@[simp] theorem kinds_setAction (code : Code) (line : Nat) (slot : Slot) (a : Action Target) :
    (code.setAction line slot a).kinds = code.kinds := by
  apply List.ext_getElem?
  intro i
  simp only [kinds, setAction, List.getElem?_map, Array.getElem?_toList, Array.getElem?_modify]
  by_cases hi : line = i
  · subst hi
    cases code[line]? <;> simp
  · simp [hi]

/-! ## What the kinds decide -/

@[simp] theorem length_kinds (code : Code) : code.kinds.length = code.size := by
  simp [kinds]

theorem isPlaceholder_eq_kinds (code : Code) (line : Nat) :
    code.isPlaceholder line = decide (code.kinds[line]? = some .placeholder) := by
  simp only [isPlaceholder, kinds, List.getElem?_map, Array.getElem?_toList]
  cases code[line]? <;> simp

/-- Codes with the same kinds have the same size. -/
theorem size_congr {code code' : Code} (h : code.kinds = code'.kinds) :
    code.size = code'.size := by
  rw [← length_kinds, h, length_kinds]

/-- Codes with the same kinds have the same placeholders. -/
theorem isPlaceholder_congr {code code' : Code} (h : code.kinds = code'.kinds) (line : Nat) :
    code.isPlaceholder line = code'.isPlaceholder line := by
  rw [isPlaceholder_eq_kinds, h, isPlaceholder_eq_kinds]

/-- A placeholder is a line. -/
theorem lt_size_of_isPlaceholder {code : Code} {line : Nat}
    (h : code.isPlaceholder line = true) : line < code.size := by
  rcases Nat.lt_or_ge line code.size with hlt | hge
  · exact hlt
  · have hnone : code[line]? = none := Array.getElem?_eq_none hge
    simp [isPlaceholder, hnone] at h

/-! ## Lines that run -/

/-- A line that exists and holds an instruction. -/
def CanRun (code : Code) (line : Nat) : Prop :=
  line < code.size ∧ code.isPlaceholder line = false

theorem canRun_congr {code code' : Code} (h : code.kinds = code'.kinds) (line : Nat) :
    code.CanRun line ↔ code'.CanRun line := by
  rw [CanRun, CanRun, size_congr h, isPlaceholder_congr h]

/-- Every jump of a code leads to one of its lines. -/
def InRange (code : Code) : Prop :=
  ∀ line slot next, (code.action line slot).target = .jump next → next < code.size

end PixelTurtle.Code
