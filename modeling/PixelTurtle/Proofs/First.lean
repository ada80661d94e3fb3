/-
PixelTurtle.Proofs.First — the first entry of a list with a property.

A report or a fault is decided by the first of several entries that something
is wrong with: a test, a line, the start of a chain. `FirstAt` says which entry
that is and what was found there. A loop over a list meets it by the two cases
of its recursion, `firstAt_zero` and `firstAt_succ`.
-/
namespace PixelTurtle

/-- The entry at `index` has the property, of which `found` is the evidence,
and no entry before it has. -/
structure FirstAt {α β : Type} (P : α → β → Prop) (xs : List α) (index : Nat) (found : β) :
    Prop where
  holds : ∃ x, xs[index]? = some x ∧ P x found
  before : ∀ earlier < index, ∀ x, xs[earlier]? = some x → ∀ b, ¬ P x b

section

variable {α β : Type} {P : α → β → Prop} {x : α} {xs : List α} {index : Nat} {found : β}

theorem not_firstAt_nil : ¬ FirstAt P [] index found := by
  rintro ⟨⟨x, hx, -⟩, -⟩
  simp at hx

theorem firstAt_zero : FirstAt P (x :: xs) 0 found ↔ P x found := by
  constructor
  · rintro ⟨⟨y, hy, hfound⟩, -⟩
    obtain rfl : x = y := by simpa using hy
    exact hfound
  · intro hfound
    exact ⟨⟨x, rfl, hfound⟩, by simp⟩

theorem firstAt_succ :
    FirstAt P (x :: xs) (index + 1) found ↔ (∀ b, ¬ P x b) ∧ FirstAt P xs index found := by
  constructor
  · rintro ⟨⟨y, hy, hfound⟩, hbefore⟩
    refine ⟨hbefore 0 (Nat.succ_pos index) x rfl, ⟨y, by simpa using hy, hfound⟩, ?_⟩
    intro earlier hlt z hz
    exact hbefore (earlier + 1) (Nat.succ_lt_succ hlt) z (by simpa using hz)
  · rintro ⟨hfirst, ⟨y, hy, hfound⟩, hbefore⟩
    refine ⟨⟨y, by simpa using hy, hfound⟩, fun earlier hlt z hz => ?_⟩
    cases earlier with
    | zero =>
      obtain rfl : x = z := by simpa using hz
      exact hfirst
    | succ earlier => exact hbefore earlier (Nat.lt_of_succ_lt_succ hlt) z (by simpa using hz)

/-! A loop that counts from `start` stops at the entry it is at, or goes on. -/

theorem exists_firstAt_cons_of_holds {start number : Nat} {b : β} (hx : P x b)
    (hunique : ∀ b', P x b' → b = b') :
    (∃ index, number = start + index ∧ FirstAt P (x :: xs) index found) ↔
      number = start ∧ found = b := by
  constructor
  · rintro ⟨index, rfl, hfirst⟩
    cases index with
    | zero => exact ⟨rfl, (hunique found (firstAt_zero.mp hfirst)).symm⟩
    | succ index => exact absurd hx ((firstAt_succ.mp hfirst).1 b)
  · rintro ⟨rfl, rfl⟩
    exact ⟨0, rfl, firstAt_zero.mpr hx⟩

theorem exists_firstAt_cons {start number : Nat} (hx : ∀ b, ¬ P x b) :
    (∃ index, number = start + index ∧ FirstAt P (x :: xs) index found) ↔
      ∃ index, number = start + 1 + index ∧ FirstAt P xs index found := by
  constructor
  · rintro ⟨index, rfl, hfirst⟩
    cases index with
    | zero => exact absurd (firstAt_zero.mp hfirst) (hx found)
    | succ index => exact ⟨index, by omega, (firstAt_succ.mp hfirst).2⟩
  · rintro ⟨index, rfl, hfirst⟩
    exact ⟨index + 1, by omega, firstAt_succ.mpr ⟨hx, hfirst⟩⟩

/-- In a list that is in order, the first entry with a property is the one that
no entry with the property precedes. -/
theorem exists_firstAt_iff_of_pairwise {R : α → α → Prop} (hR : ∀ x y, R x y → ¬ R y x)
    (hxs : xs.Pairwise R) :
    (∃ index, FirstAt P xs index found) ↔
      ∃ x ∈ xs, P x found ∧ ∀ y ∈ xs, R y x → ∀ b, ¬ P y b := by
  rw [List.pairwise_iff_getElem] at hxs
  constructor
  · rintro ⟨index, ⟨x, hx, hfound⟩, hbefore⟩
    refine ⟨x, List.mem_of_getElem? hx, hfound, fun y hy hyx b => ?_⟩
    obtain ⟨hlt, rfl⟩ := List.getElem?_eq_some_iff.mp hx
    obtain ⟨earlier, hearlier, rfl⟩ := List.getElem_of_mem hy
    rcases Nat.lt_trichotomy earlier index with hbelow | rfl | habove
    · exact hbefore earlier hbelow _ (List.getElem?_eq_getElem hearlier) b
    · exact absurd hyx (hR _ _ hyx)
    · exact absurd hyx (hR _ _ (hxs index earlier hlt hearlier habove))
  · rintro ⟨x, hx, hfound, hbefore⟩
    obtain ⟨index, hlt, rfl⟩ := List.getElem_of_mem hx
    refine ⟨index, ⟨_, List.getElem?_eq_getElem hlt, hfound⟩, fun earlier hbelow y hy b => ?_⟩
    obtain ⟨hearlier, rfl⟩ := List.getElem?_eq_some_iff.mp hy
    exact hbefore _ (List.getElem_mem hearlier) (hxs earlier index hearlier hlt hbelow) b

/-- There is one first entry, and where an entry has one piece of evidence,
one is found. -/
theorem FirstAt.unique {index' : Nat} {found' : β} (h : FirstAt P xs index found)
    (h' : FirstAt P xs index' found') (hP : ∀ x b b', P x b → P x b' → b = b') :
    index = index' ∧ found = found' := by
  obtain ⟨⟨x, hx, hfound⟩, hbefore⟩ := h
  obtain ⟨⟨x', hx', hfound'⟩, hbefore'⟩ := h'
  obtain rfl : index = index' := by
    rcases Nat.lt_trichotomy index index' with hlt | heq | hlt
    · exact absurd hfound (hbefore' index hlt x hx found)
    · exact heq
    · exact absurd hfound' (hbefore index' hlt x' hx' found')
  obtain rfl : x = x' := Option.some.inj (hx.symm.trans hx')
  exact ⟨rfl, hP x found found' hfound hfound'⟩

end

end PixelTurtle
