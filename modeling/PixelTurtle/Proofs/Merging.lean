/-
PixelTurtle.Proofs.Merging — coverage as a set of bits.

All that is ever asked of a coverage is whether a bit is set. So coverages are
compared bit by bit:

* `Coverage.isCovered_cover`, `Coverage.isCovered_merge` — which bits an
  operation sets.
* `Coverage.Within` — the order of coverages by their bits, in which no
  operation but `clear` goes down.
* `Coverage.eq_of_isCovered` — coverages of one size are equal when their bits
  are. So the laws of `merge` are those of `or`.
* `Coverage.isCovered_mergeAll` — the coverages of several runs, merged.
* `Coverage.tally_congr`, `Coverage.percentage_congr` — the percentage is the
  same when the bits are.
-/
import PixelTurtle.Coverage

namespace PixelTurtle

namespace Coverage

variable {a b c : Coverage} {lines : Nat}

/-! ## Which bits are set -/

@[simp] theorem isCovered_none (lines line : Nat) (slot : Slot) :
    (none lines).isCovered line slot = false := by
  cases slot <;> simp [none, isCovered, Array.getD]

@[simp] theorem isCovered_clear (c : Coverage) (line : Nat) (slot : Slot) :
    c.clear.isCovered line slot = false := by
  cases slot <;> simp [clear, isCovered, Array.getD]

theorem getD_setIfInBounds (ran : Array Bool) (line line' : Nat) :
    (ran.setIfInBounds line true)[line']?.getD false = true ↔
      (line < ran.size ∧ line = line') ∨ ran[line']?.getD false = true := by
  rw [Array.getElem?_setIfInBounds]
  by_cases heq : line = line'
  · subst heq
    by_cases hlt : line < ran.size <;> simp [hlt]
  · simp [heq]

/-- Covering an action sets its own bit and no other. -/
theorem isCovered_cover {c : Coverage} {line : Nat} (hwhite : line < c.white.size)
    (hcolor : line < c.color.size) (slot : Slot) (line' : Nat) (slot' : Slot) :
    (c.cover line slot).isCovered line' slot' = true ↔
      (line = line' ∧ slot = slot') ∨ c.isCovered line' slot' = true := by
  cases slot <;> cases slot' <;>
    simp [cover, isCovered, getD_setIfInBounds, hwhite, hcolor]

/-! ## More bits and fewer -/

/-- What ran in the one coverage ran in the other. -/
def Within (a b : Coverage) : Prop :=
  ∀ line slot, a.isCovered line slot = true → b.isCovered line slot = true

/-- Covering an action loses no bit, whether there is such a line or not. -/
theorem within_cover (c : Coverage) (line : Nat) (slot : Slot) : c.Within (c.cover line slot) := by
  intro line' slot' h
  cases slot <;> cases slot' <;> simp_all [cover, isCovered, getD_setIfInBounds]

/-! ## Coverages of one size -/

/-- There are as many bits for each slot in the one coverage as in the other. -/
structure SameSize (a b : Coverage) : Prop where
  white : a.white.size = b.white.size
  color : a.color.size = b.color.size

theorem SameSize.refl (c : Coverage) : c.SameSize c :=
  ⟨rfl, rfl⟩

theorem SameSize.symm (h : a.SameSize b) : b.SameSize a :=
  ⟨h.white.symm, h.color.symm⟩

theorem SameSize.trans (hab : a.SameSize b) (hbc : b.SameSize c) : a.SameSize c :=
  ⟨hab.white.trans hbc.white, hab.color.trans hbc.color⟩

/-- There is a bit for every line and slot. -/
structure Sized (lines : Nat) (c : Coverage) : Prop where
  white : c.white.size = lines
  color : c.color.size = lines

theorem sized_none (lines : Nat) : (none lines).Sized lines :=
  ⟨by simp [none], by simp [none]⟩

theorem Sized.sameSize (ha : a.Sized lines) (hb : b.Sized lines) : a.SameSize b :=
  ⟨ha.white.trans hb.white.symm, ha.color.trans hb.color.symm⟩

theorem eq_of_getD {ran ran' : Array Bool} (hsize : ran.size = ran'.size)
    (h : ∀ line, ran.getD line false = ran'.getD line false) : ran = ran' := by
  refine Array.ext hsize fun line hlt hlt' => ?_
  have hline := h line
  rwa [Array.getD_eq_getD_getElem?, Array.getD_eq_getD_getElem?, Array.getElem?_eq_getElem hlt,
    Array.getElem?_eq_getElem hlt'] at hline

/-- A coverage is its bits. -/
theorem eq_of_isCovered (hsize : a.SameSize b)
    (h : ∀ line slot, a.isCovered line slot = b.isCovered line slot) : a = b := by
  have hwhite : a.white = b.white := eq_of_getD hsize.white fun line => h line .white
  have hcolor : a.color = b.color := eq_of_getD hsize.color fun line => h line .color
  obtain ⟨white, color⟩ := a
  obtain ⟨white', color'⟩ := b
  rw [mk.injEq]
  exact ⟨hwhite, hcolor⟩

/-! ## Merging -/

theorem sameSize_merge (a b : Coverage) : (a.merge b).SameSize a :=
  ⟨by simp [merge, mergeRuns], by simp [merge, mergeRuns]⟩

theorem Sized.merge (h : a.Sized lines) (b : Coverage) : (a.merge b).Sized lines :=
  ⟨(sameSize_merge a b).white.trans h.white, (sameSize_merge a b).color.trans h.color⟩

theorem getD_mergeRuns (ran ran' : Array Bool) (line : Nat) :
    (mergeRuns ran ran')[line]?.getD false =
      (ran[line]?.getD false || (decide (line < ran.size) && ran'[line]?.getD false)) := by
  rw [mergeRuns, Array.getElem?_mapIdx]
  by_cases hlt : line < ran.size <;> simp [hlt]

/-- Merging loses no bit, whatever the sizes. -/
theorem within_merge (a b : Coverage) : a.Within (a.merge b) := by
  intro line slot h
  cases slot <;> simp_all [merge, isCovered, getD_mergeRuns]

theorem getD_mergeRuns_of_size_eq {ran ran' : Array Bool} (h : ran.size = ran'.size) (line : Nat) :
    (mergeRuns ran ran')[line]?.getD false =
      (ran[line]?.getD false || ran'[line]?.getD false) := by
  rw [getD_mergeRuns]
  by_cases hlt : line < ran.size
  · simp [hlt]
  · have hlt' : ¬ line < ran'.size := h ▸ hlt
    simp [hlt, hlt']

/-- A bit of the merged coverage is set when it is in either. -/
theorem isCovered_merge (h : a.SameSize b) (line : Nat) (slot : Slot) :
    (a.merge b).isCovered line slot = (a.isCovered line slot || b.isCovered line slot) := by
  have hwhite := getD_mergeRuns_of_size_eq h.white line
  have hcolor := getD_mergeRuns_of_size_eq h.color line
  cases slot <;> simpa [isCovered, merge]

theorem merge_comm (h : a.SameSize b) : a.merge b = b.merge a := by
  have hsize : (a.merge b).SameSize (b.merge a) :=
    (sameSize_merge a b).trans (h.trans (sameSize_merge b a).symm)
  refine eq_of_isCovered hsize fun line slot => ?_
  rw [isCovered_merge h, isCovered_merge h.symm, Bool.or_comm]

theorem merge_assoc (hab : a.SameSize b) (hbc : b.SameSize c) :
    (a.merge b).merge c = a.merge (b.merge c) := by
  have hleft : (a.merge b).SameSize c := (sameSize_merge a b).trans (hab.trans hbc)
  have hright : a.SameSize (b.merge c) := hab.trans (sameSize_merge b c).symm
  have hsize : ((a.merge b).merge c).SameSize (a.merge (b.merge c)) :=
    (sameSize_merge _ c).trans ((sameSize_merge a b).trans (sameSize_merge a _).symm)
  refine eq_of_isCovered hsize fun line slot => ?_
  rw [isCovered_merge hleft, isCovered_merge hab, isCovered_merge hright, isCovered_merge hbc,
    Bool.or_assoc]

theorem merge_self (c : Coverage) : c.merge c = c := by
  refine eq_of_isCovered (sameSize_merge c c) fun line slot => ?_
  rw [isCovered_merge (.refl c), Bool.or_self]

/-- The coverages of several runs of a program of a number of lines, merged. -/
def mergeAll (lines : Nat) (coverages : List Coverage) : Coverage :=
  coverages.foldl merge (none lines)

theorem isCovered_foldl_merge {coverages : List Coverage} (ha : a.Sized lines)
    (h : ∀ c ∈ coverages, c.Sized lines) (line : Nat) (slot : Slot) :
    (coverages.foldl merge a).isCovered line slot = true ↔
      a.isCovered line slot = true ∨ ∃ c ∈ coverages, c.isCovered line slot = true := by
  induction coverages generalizing a with
  | nil => simp
  | cons c rest ih =>
    have hrest : ∀ d ∈ rest, d.Sized lines := fun d hd => h d (List.mem_cons_of_mem _ hd)
    rw [List.foldl_cons, ih (ha.merge c) hrest,
      isCovered_merge (ha.sameSize (h c List.mem_cons_self))]
    simp [or_assoc]

/-- A bit is set in the merged coverage when it is in one of the runs. -/
theorem isCovered_mergeAll {coverages : List Coverage} (h : ∀ c ∈ coverages, c.Sized lines)
    (line : Nat) (slot : Slot) :
    (mergeAll lines coverages).isCovered line slot = true ↔
      ∃ c ∈ coverages, c.isCovered line slot = true := by
  rw [mergeAll, isCovered_foldl_merge (sized_none lines) h]
  simp

/-! ## The percentage -/

/-- What is counted for a line depends on its two bits. -/
theorem tally_cons_congr {kind : Kind} {rest rest' : List Kind} {line line' : Nat}
    (hbits : ∀ slot, a.isCovered line slot = b.isCovered line' slot)
    (hrest : a.tally (line + 1) rest = b.tally (line' + 1) rest') :
    a.tally line (kind :: rest) = b.tally line' (kind :: rest') := by
  have hhalves : a.halves line kind = b.halves line' kind := by simp only [halves, hbits]
  cases kind <;> simp only [tally, hrest, hhalves]

/-- What is counted from a line on depends on the bits from there on, wherever
they stand. -/
theorem tally_congr {kinds : List Kind} {line line' : Nat}
    (h : ∀ i slot, a.isCovered (line + i) slot = b.isCovered (line' + i) slot) :
    a.tally line kinds = b.tally line' kinds := by
  induction kinds generalizing line line' with
  | nil => rfl
  | cons kind rest ih =>
    refine tally_cons_congr (h 0) (ih fun i slot => ?_)
    have hnext := h (i + 1) slot
    rwa [Nat.add_comm i, ← Nat.add_assoc, ← Nat.add_assoc] at hnext

/-- Coverages with the same bits have the same percentage. -/
theorem percentage_congr (h : ∀ line slot, a.isCovered line slot = b.isCovered line slot)
    (kinds : List Kind) : a.percentage kinds = b.percentage kinds := by
  have htally : a.tally 0 kinds = b.tally 0 kinds := tally_congr fun i slot => h (0 + i) slot
  rw [percentage, percentage, htally]

end Coverage

end PixelTurtle
