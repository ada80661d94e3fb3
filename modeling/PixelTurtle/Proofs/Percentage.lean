/-
PixelTurtle.Proofs.Percentage — the percentage sums up the marks.

A percentage is the quotient of two counts, cut down to a whole number. Both
counts are sums over the lines of a code, so what holds of them is shown line by
line, and the quotient is looked at once.

* `Coverage.tally_fst` — how many lines are counted is up to the code alone.
* `Coverage.tally_snd_le`, `Coverage.tally_snd_eq_iff` — no line runs more than
  both of its halves, and all halves ran exactly when every mark is `entirely`.
* `Coverage.tally_snd_mono` — with more bits no fewer halves ran.
* `Coverage.percentage_faithful` — what this says of the percentage, and the
  laws of merging.
-/
import Mathlib.Data.Bool.Basic
import PixelTurtle.Proofs.Merging

namespace PixelTurtle.Coverage

variable {a b : Coverage}

/-! ## One line -/

theorem halves_conditional (c : Coverage) (line : Nat) :
    c.halves line .conditional =
      (c.isCovered line .white).toNat + (c.isCovered line .color).toNat :=
  rfl

/-- Both halves of a line that does not branch run at once. -/
theorem halves_of_ne (c : Coverage) (line : Nat) {kind : Kind} (h : kind ≠ .conditional) :
    c.halves line kind =
      if c.isCovered line .white || c.isCovered line .color then 2 else 0 := by
  cases kind with
  | conditional => exact absurd rfl h
  | placeholder => rfl
  | unconditional => rfl

theorem halves_le_two (c : Coverage) (line : Nat) (kind : Kind) : c.halves line kind ≤ 2 := by
  by_cases hkind : kind = .conditional
  · have hwhite := (c.isCovered line .white).toNat_le
    have hcolor := (c.isCovered line .color).toNat_le
    rw [hkind, halves_conditional]
    omega
  · rw [halves_of_ne c line hkind]
    split <;> decide

/-- A line is marked as run entirely when both of its halves ran. -/
theorem mark_eq_entirely_iff (c : Coverage) (line : Nat) (kind : Kind) :
    c.mark line kind = .entirely ↔ c.halves line kind = 2 := by
  have hle := c.halves_le_two line kind
  rw [mark]
  split
  · next h => simp [h]
  · next h => simp [h]
  · next hzero hone =>
    have hzero : c.halves line kind ≠ 0 := hzero
    have hone : c.halves line kind ≠ 1 := hone
    exact ⟨fun _ => by omega, fun _ => rfl⟩

theorem halves_mono (h : a.Within b) (line : Nat) (kind : Kind) :
    a.halves line kind ≤ b.halves line kind := by
  have hwhite := h line .white
  have hcolor := h line .color
  by_cases hkind : kind = .conditional
  · rw [hkind, halves_conditional, halves_conditional]
    exact Nat.add_le_add (Bool.toNat_le_toNat (Bool.le_iff_imp.mpr hwhite))
      (Bool.toNat_le_toNat (Bool.le_iff_imp.mpr hcolor))
  · rw [halves_of_ne a line hkind, halves_of_ne b line hkind]
    split
    · next hran =>
      have hran' : (b.isCovered line .white || b.isCovered line .color) = true := by
        simp only [Bool.or_eq_true] at hran ⊢
        exact hran.imp hwhite hcolor
      exact Nat.le_of_eq (if_pos hran').symm
    · exact Nat.zero_le _

/-! ## All lines -/

theorem tally_cons_of_ne (c : Coverage) (line : Nat) {kind : Kind} (h : kind ≠ .placeholder)
    (rest : List Kind) :
    c.tally line (kind :: rest) =
      ((c.tally (line + 1) rest).1 + 1, (c.tally (line + 1) rest).2 + c.halves line kind) := by
  cases kind with
  | placeholder => exact absurd rfl h
  | unconditional => rfl
  | conditional => rfl

theorem tally_cons_placeholder (c : Coverage) (line : Nat) (rest : List Kind) :
    c.tally line (.placeholder :: rest) = c.tally (line + 1) rest :=
  rfl

/-- The lines that are counted are those that hold an instruction. -/
theorem tally_fst (c : Coverage) (line : Nat) (kinds : List Kind) :
    (c.tally line kinds).1 = kinds.countP (· ≠ .placeholder) := by
  induction kinds generalizing line with
  | nil => rfl
  | cons kind rest ih =>
    by_cases hkind : kind = .placeholder
    · rw [hkind, tally_cons_placeholder, ih]
      simp
    · rw [tally_cons_of_ne c line hkind, ih, List.countP_cons_of_pos (by simpa using hkind)]

theorem tally_snd_le (c : Coverage) (line : Nat) (kinds : List Kind) :
    (c.tally line kinds).2 ≤ 2 * (c.tally line kinds).1 := by
  induction kinds generalizing line with
  | nil => exact Nat.le_refl _
  | cons kind rest ih =>
    have hrest := ih (line + 1)
    by_cases hkind : kind = .placeholder
    · rwa [hkind, tally_cons_placeholder]
    · have hline := c.halves_le_two line kind
      rw [tally_cons_of_ne c line hkind]
      dsimp only
      omega

theorem forall_getElem?_cons {α : Type} {P : Nat → α → Prop} {x : α} {rest : List α} :
    (∀ i y, (x :: rest)[i]? = some y → P i y) ↔
      P 0 x ∧ ∀ i y, rest[i]? = some y → P (i + 1) y := by
  constructor
  · intro h
    exact ⟨h 0 x rfl, fun i y hy => h (i + 1) y hy⟩
  · rintro ⟨hfirst, hrest⟩ (_ | i) y hy
    · obtain rfl : x = y := Option.some.inj hy
      exact hfirst
    · exact hrest i y hy

/-- All halves ran when every line that holds an instruction ran entirely. -/
theorem tally_snd_eq_iff (c : Coverage) (line : Nat) (kinds : List Kind) :
    (c.tally line kinds).2 = 2 * (c.tally line kinds).1 ↔
      ∀ i kind, kinds[i]? = some kind → kind ≠ .placeholder →
        c.mark (line + i) kind = .entirely := by
  induction kinds generalizing line with
  | nil => simp [tally]
  | cons kind rest ih =>
    have hnext := ih (line + 1)
    simp only [Nat.add_assoc, Nat.add_comm 1] at hnext
    rw [forall_getElem?_cons, Nat.add_zero, ← hnext]
    by_cases hkind : kind = .placeholder
    · simp [hkind, tally_cons_placeholder]
    · -- Neither the first line nor the others can make up for what the other lacks.
      have hline := c.halves_le_two line kind
      have hrest := c.tally_snd_le (line + 1) rest
      rw [tally_cons_of_ne c line hkind, mark_eq_entirely_iff]
      dsimp only
      constructor
      · intro h
        exact ⟨fun _ => by omega, by omega⟩
      · rintro ⟨hboth, hall⟩
        rw [hboth hkind, hall]
        omega

theorem tally_snd_mono (h : a.Within b) (line : Nat) (kinds : List Kind) :
    (a.tally line kinds).2 ≤ (b.tally line kinds).2 := by
  induction kinds generalizing line with
  | nil => exact Nat.le_refl _
  | cons kind rest ih =>
    by_cases hkind : kind = .placeholder
    · simpa only [hkind, tally_cons_placeholder] using ih (line + 1)
    · rw [tally_cons_of_ne a line hkind, tally_cons_of_ne b line hkind]
      exact Nat.add_le_add (ih (line + 1)) (halves_mono h line kind)

/-! ## The quotient -/

theorem percentage_eq (c : Coverage) (kinds : List Kind) :
    c.percentage kinds =
      if (c.tally 0 kinds).1 = 0 then 100
      else 100 * (c.tally 0 kinds).2 / (2 * (c.tally 0 kinds).1) := by
  rw [percentage]
  split
  · next h => simp [h]
  · next lines ran hne h =>
    have hlines : lines ≠ 0 := hne
    simp [h, hlines]

theorem percentage_le (c : Coverage) (kinds : List Kind) : c.percentage kinds ≤ 100 := by
  rw [percentage_eq]
  split
  · exact Nat.le_refl _
  · refine Nat.div_le_of_le_mul ?_
    rw [Nat.mul_comm (2 * _)]
    exact Nat.mul_le_mul_left 100 (c.tally_snd_le 0 kinds)

/-- Cutting the quotient down never makes it whole: what is short of all halves
is short of 100. -/
theorem percentage_eq_hundred_iff (c : Coverage) (kinds : List Kind) :
    c.percentage kinds = 100 ↔ (c.tally 0 kinds).2 = 2 * (c.tally 0 kinds).1 := by
  have hle := c.tally_snd_le 0 kinds
  rw [percentage_eq]
  split
  · next h0 => exact ⟨fun _ => by omega, fun _ => rfl⟩
  · next h0 =>
    have hpos : 0 < 2 * (c.tally 0 kinds).1 := by omega
    constructor
    · intro h
      have hmul : 100 * (2 * (c.tally 0 kinds).1) ≤ 100 * (c.tally 0 kinds).2 :=
        (Nat.le_div_iff_mul_le hpos).mp (Nat.le_of_eq h.symm)
      omega
    · intro h
      rw [h, Nat.mul_div_cancel _ hpos]

/-- The percentage is 100 when every line that holds an instruction is marked as
run entirely. -/
theorem percentage_eq_hundred_iff_marks (c : Coverage) (code : Code) :
    c.percentage code.kinds = 100 ↔
      ∀ line instruction, code[line]? = some instruction → instruction.kind ≠ .placeholder →
        c.mark line instruction.kind = .entirely := by
  have hkinds : ∀ line : Nat, code.kinds[line]? = (code[line]?).map Instruction.kind := by
    intro line
    rw [Code.kinds, List.getElem?_map, Array.getElem?_toList]
  rw [percentage_eq_hundred_iff, tally_snd_eq_iff]
  simp only [Nat.zero_add, hkinds]
  constructor
  · intro h line instruction hline
    exact h line instruction.kind (congrArg (Option.map Instruction.kind) hline)
  · intro h line kind hkind
    obtain ⟨instruction, hline, rfl⟩ := Option.map_eq_some_iff.mp hkind
    exact h line instruction hline

theorem percentage_mono (h : a.Within b) (kinds : List Kind) :
    a.percentage kinds ≤ b.percentage kinds := by
  rw [percentage_eq, percentage_eq, tally_fst, tally_fst]
  split
  · exact Nat.le_refl _
  · exact Nat.div_le_div_right (Nat.mul_le_mul_left 100 (tally_snd_mono h 0 kinds))

/-- The percentage of a code and a coverage, of whatever sizes, is at most 100, is
100 exactly when every line that holds an instruction is marked as run entirely,
and goes down neither when an action is covered nor when another coverage is
merged. Merging is idempotent, and for coverages of one size it is commutative
and associative, and its bits are those of either. -/
theorem percentage_faithful (code : Code) (a b c : Coverage) :
    a.percentage code.kinds ≤ 100 ∧
      (a.percentage code.kinds = 100 ↔
        ∀ line instruction, code[line]? = some instruction → instruction.kind ≠ .placeholder →
          a.mark line instruction.kind = .entirely) ∧
      (∀ line slot, a.percentage code.kinds ≤ (a.cover line slot).percentage code.kinds) ∧
      a.percentage code.kinds ≤ (a.merge b).percentage code.kinds ∧
      a.merge a = a ∧
      (a.SameSize b → a.merge b = b.merge a ∧
        ∀ line slot, (a.merge b).isCovered line slot =
          (a.isCovered line slot || b.isCovered line slot)) ∧
      (a.SameSize b → b.SameSize c → (a.merge b).merge c = a.merge (b.merge c)) := by
  refine ⟨a.percentage_le _, a.percentage_eq_hundred_iff_marks code, ?_, ?_, a.merge_self, ?_, ?_⟩
  · intro line slot
    exact percentage_mono (a.within_cover line slot) _
  · exact percentage_mono (a.within_merge b) _
  · intro hab
    exact ⟨merge_comm hab, isCovered_merge hab⟩
  · intro hab hbc
    exact merge_assoc hab hbc

/-- Runs that cover half of a line that branches, the other half of it and a line
that does not branch, and a line that does not count. -/
theorem percentage_faithful_three_runs :
    ∃ (code : Code) (a b c : Coverage),
      code.kinds = [.conditional, .placeholder, .unconditional] ∧
      a = (none 3).cover 0 .white ∧ b = ((none 3).cover 0 .color).cover 2 .white ∧
      c = (none 3).cover 1 .color ∧ a.SameSize b ∧ b.SameSize c ∧
      a.percentage code.kinds = 25 ∧ (a.merge c).percentage code.kinds = 25 ∧
      (a.merge b).percentage code.kinds = 100 ∧ (a.merge b).mark 2 .unconditional = .entirely ∧
      a.merge b = b.merge a ∧ (a.merge b).merge c = a.merge (b.merge c) := by
  obtain ⟨code, i, hkinds, hi, hkind⟩ : ∃ (code : Code) (i : Instruction Target),
      code.kinds = [.conditional, .placeholder, .unconditional] ∧ code[2]? = some i ∧
        i.kind = .unconditional :=
    ⟨#[⟨.goOn (.exit 0), .goOn (.jump 2), .conditional⟩,
      ⟨.goOn (.jump 2), .goOn (.jump 2), .placeholder⟩,
      ⟨.goOn (.exit 1), .goOn (.exit 1), .unconditional⟩], _, rfl, rfl, rfl⟩
  obtain ⟨a, ha⟩ : ∃ a, a = (none 3).cover 0 .white := ⟨_, rfl⟩
  obtain ⟨b, hb⟩ : ∃ b, b = ((none 3).cover 0 .color).cover 2 .white := ⟨_, rfl⟩
  obtain ⟨c, hc⟩ : ∃ c, c = (none 3).cover 1 .color := ⟨_, rfl⟩
  have hab : a.SameSize b := by
    subst ha hb
    exact ⟨by decide, by decide⟩
  have hbc : b.SameSize c := by
    subst hb hc
    exact ⟨by decide, by decide⟩
  have hfull : (a.merge b).percentage code.kinds = 100 := by
    subst ha hb
    rw [hkinds]
    decide
  obtain ⟨-, -, -, -, -, hcomm, hassoc⟩ := percentage_faithful code a b c
  obtain ⟨-, hmarks, -⟩ := percentage_faithful code (a.merge b) b c
  refine ⟨code, a, b, c, hkinds, ha, hb, hc, hab, hbc, ?_, ?_, hfull, ?_, (hcomm hab).1,
    hassoc hab hbc⟩
  · subst ha
    rw [hkinds]
    decide
  · subst ha hc
    rw [hkinds]
    decide
  · have hmark := hmarks.mp hfull 2 i hi (by rw [hkind]; decide)
    rwa [hkind] at hmark

end PixelTurtle.Coverage
