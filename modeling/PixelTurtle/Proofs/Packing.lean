/-
PixelTurtle.Proofs.Packing — targets as signed 64 bit integers.

A target stands for an integer of any size, a line for itself and an exit status
`s` for `-s - 1` (`Target.value`). Packing writes that integer in 64 bits, and
unpacking looks for the target that stands for an integer, so whatever holds of
the two is a fact about `Target.value`.

* `Signed.ofInt?` — 64 bit arithmetic in which a result that needs more bits is
  missing instead of wrapped around.
* `Target.toInt_pack` — a target that fits is packed as what it stands for.
* `Target.ofPacked?_eq_some_iff` — unpacking finds the target that stands for an
  integer, and `Target.exists_value_iff` says which integers have one.
* `Target.pack_roundTrip` — the round trip in both directions, and that no sum
  and no negation on the way leaves 64 bits.
-/
import Mathlib.Algebra.Group.Int.Defs
import Mathlib.Algebra.Group.Nat.Defs
import PixelTurtle.Instruction.Packed

namespace PixelTurtle

/-! ## Signed arithmetic that can fail -/

namespace Signed

/-- The 64 bit integer of a value, if there is one. -/
def ofInt? (value : Int) : Option Int64 :=
  if -2 ^ 63 ≤ value ∧ value < 2 ^ 63 then some (Int64.ofInt value) else none

/-- The negation of an integer, if it fits 64 bits. -/
def neg? (a : Int64) : Option Int64 :=
  ofInt? (-a.toInt)

/-- The sum of two integers, if it fits 64 bits. -/
def add? (a b : Int64) : Option Int64 :=
  ofInt? (a.toInt + b.toInt)

/-- The difference of two integers, if it fits 64 bits. -/
def sub? (a b : Int64) : Option Int64 :=
  ofInt? (a.toInt - b.toInt)

variable {a b : Int64}

theorem ofInt?_eq_some_iff {value : Int} : ofInt? value = some a ↔ a.toInt = value := by
  rw [ofInt?]
  constructor
  · intro h
    split at h
    · next hfits =>
      obtain rfl : Int64.ofInt value = a := Option.some.inj h
      exact Int64.toInt_ofInt_of_le hfits.1 hfits.2
    · cases h
  · rintro rfl
    rw [if_pos ⟨a.le_toInt, a.toInt_lt⟩, Int64.ofInt_toInt]

/-- A value of 64 bits is not wrapped around. -/
theorem bmod_eq_self {value : Int} (hlower : -2 ^ 63 ≤ value) (hupper : value < 2 ^ 63) :
    value.bmod (2 ^ 64) = value :=
  Int.bmod_eq_of_le (by omega) (by omega)

theorem neg?_eq_some (h : -2 ^ 63 < a.toInt) : neg? a = some (-a) := by
  have hupper := a.toInt_lt
  rw [neg?, ofInt?_eq_some_iff, Int64.toInt_neg]
  exact bmod_eq_self (by omega) (by omega)

theorem add?_eq_some (hlower : -2 ^ 63 ≤ a.toInt + b.toInt) (hupper : a.toInt + b.toInt < 2 ^ 63) :
    add? a b = some (a + b) := by
  rw [add?, ofInt?_eq_some_iff, Int64.toInt_add]
  exact bmod_eq_self hlower hupper

theorem sub?_eq_some (hlower : -2 ^ 63 ≤ a.toInt - b.toInt) (hupper : a.toInt - b.toInt < 2 ^ 63) :
    sub? a b = some (a - b) := by
  rw [sub?, ofInt?_eq_some_iff, Int64.toInt_sub]
  exact bmod_eq_self hlower hupper

end Signed

namespace Target

/-- The integer form of a target, where the negation and the difference can
fail. -/
def checkedPack : Target → Option Int64
  | jump line => some (Int64.ofNat line)
  | exit status => do
      let negated ← Signed.neg? (Int64.ofNat status.toNat)
      Signed.sub? negated 1

/-- The target an integer stands for, if it does, where the sum and the negation
can fail. -/
def checkedOfPacked? (packed : Int64) : Option (Option Target) :=
  if 0 ≤ packed then some (some (jump packed.toNatClampNeg))
  else do
    let next ← Signed.add? packed 1
    let status ← Signed.neg? next
    return if 0 ≤ status ∧ status.toNatClampNeg < UInt32.size
      then some (exit (UInt32.ofNat status.toNatClampNeg)) else none

/-! ## What a target stands for -/

/-- The integer that a target stands for, however many bits it takes. -/
def value : Target → Int
  | jump line => line
  | exit status => -status.toNat - 1

/-- A target that stands for an integer of 64 bits: any exit, and a line below
2^63. -/
def Fits : Target → Prop
  | jump line => line < 2 ^ 63
  | exit _ => True

@[simp] theorem value_jump (line : Nat) : (jump line).value = line :=
  rfl

@[simp] theorem value_exit (status : Status) : (exit status).value = -status.toNat - 1 :=
  rfl

theorem fits_iff (t : Target) : t.Fits ↔ t.value < 2 ^ 63 := by
  cases t with
  | jump line =>
    rw [Fits, value_jump]
    omega
  | exit status =>
    rw [Fits, value_exit, true_iff]
    omega

/-- Lines stand for the integers from 0 on, and exits for the 2^32 below. -/
theorem exists_value_iff (n : Int) : (∃ t : Target, t.value = n) ↔ -2 ^ 32 ≤ n := by
  constructor
  · rintro ⟨t, rfl⟩
    cases t with
    | jump line =>
      rw [value_jump]
      omega
    | exit status =>
      have hstatus := status.toNat_lt
      rw [value_exit]
      omega
  · intro h
    by_cases hn : 0 ≤ n
    · exact ⟨jump n.toNat, Int.toNat_of_nonneg hn⟩
    · refine ⟨exit (UInt32.ofNat (-(n + 1)).toNat), ?_⟩
      rw [value_exit, UInt32.toNat_ofNat_of_lt' (show _ < 2 ^ 32 by omega)]
      omega

/-! ## Packing -/

/-- A status is far from the ends of 64 bits, so neither step of packing it
leaves them. -/
theorem pack_steps (status : Status) :
    Signed.neg? (Int64.ofNat status.toNat) = some (-Int64.ofNat status.toNat) ∧
      Signed.sub? (-Int64.ofNat status.toNat) 1 = some (exit status).pack ∧
      (exit status).pack.toInt = -status.toNat - 1 := by
  have hstatus := status.toNat_lt
  have hint : (Int64.ofNat status.toNat).toInt = status.toNat :=
    Int64.toInt_ofNat_of_lt (by omega)
  have hone : (1 : Int64).toInt = 1 := rfl
  have hneg := Signed.neg?_eq_some (a := Int64.ofNat status.toNat) (by omega)
  have hnegated := Signed.ofInt?_eq_some_iff.mp hneg
  have hsub := Signed.sub?_eq_some (a := -Int64.ofNat status.toNat) (b := 1) (by omega) (by omega)
  have hpacked := Signed.ofInt?_eq_some_iff.mp hsub
  rw [hnegated, hint, hone] at hpacked
  exact ⟨hneg, hsub, hpacked⟩

theorem checkedPack_eq_some (t : Target) : t.checkedPack = some t.pack := by
  cases t with
  | jump line => rfl
  | exit status =>
    obtain ⟨hneg, hsub, -⟩ := pack_steps status
    rw [checkedPack, hneg]
    exact hsub

/-- A target that fits is packed as the integer it stands for. -/
theorem toInt_pack {t : Target} (h : t.Fits) : t.pack.toInt = t.value := by
  cases t with
  | jump line => exact Int64.toInt_ofNat_of_lt h
  | exit status => exact (pack_steps status).2.2

/-! ## Unpacking -/

variable {packed : Int64} {t : Target}

/-- The sum comes before the negation, so that even the least integer can be
negated. -/
theorem unpack_steps (h : packed.toInt < 0) :
    Signed.add? packed 1 = some (packed + 1) ∧
      Signed.neg? (packed + 1) = some (-(packed + 1)) ∧
      (-(packed + 1)).toInt = -(packed.toInt + 1) := by
  have hlower := packed.le_toInt
  have hone : (1 : Int64).toInt = 1 := rfl
  have hadd := Signed.add?_eq_some (a := packed) (b := 1) (by omega) (by omega)
  have hsum := Signed.ofInt?_eq_some_iff.mp hadd
  have hneg := Signed.neg?_eq_some (a := packed + 1) (by omega)
  have hnegated := Signed.ofInt?_eq_some_iff.mp hneg
  rw [hsum, hone] at hnegated
  exact ⟨hadd, hneg, hnegated⟩

theorem checkedOfPacked?_eq_some (packed : Int64) :
    checkedOfPacked? packed = some (ofPacked? packed) := by
  rw [checkedOfPacked?, ofPacked?]
  split
  · rfl
  · next hpacked =>
    have hpacked : ¬ 0 ≤ packed.toInt := fun h => hpacked (Int64.le_iff_toInt_le.mpr h)
    obtain ⟨hadd, hneg, hnegated⟩ := unpack_steps (Int.not_le.mp hpacked)
    have hnonneg : 0 ≤ -(packed + 1) := by
      rw [Int64.le_iff_toInt_le, hnegated, Int64.toInt_zero]
      omega
    simp [hadd, hneg, hnonneg]

theorem ofPacked?_of_nonneg (h : 0 ≤ packed.toInt) :
    ofPacked? packed = some (jump packed.toInt.toNat) := by
  have hpacked : 0 ≤ packed := Int64.le_iff_toInt_le.mpr h
  rw [ofPacked?, if_pos hpacked]
  rfl

theorem ofPacked?_of_neg (h : packed.toInt < 0) :
    ofPacked? packed =
      if -2 ^ 32 ≤ packed.toInt then some (exit (UInt32.ofNat (-(packed.toInt + 1)).toNat))
      else none := by
  have hpacked : ¬ 0 ≤ packed := fun hle => absurd (Int64.le_iff_toInt_le.mp hle) (Int.not_le.mpr h)
  have hstatus : (-(packed + 1)).toNatClampNeg = (-(packed.toInt + 1)).toNat :=
    congrArg Int.toNat (unpack_steps h).2.2
  have hsize : (-(packed.toInt + 1)).toNat < UInt32.size ↔ -2 ^ 32 ≤ packed.toInt := by
    rw [UInt32.size]
    omega
  rw [ofPacked?, if_neg hpacked]
  simp only [hstatus, hsize]

/-- Unpacking finds the target that stands for an integer. -/
theorem ofPacked?_eq_some_iff : ofPacked? packed = some t ↔ t.value = packed.toInt := by
  by_cases hpacked : 0 ≤ packed.toInt
  · rw [ofPacked?_of_nonneg hpacked, Option.some.injEq]
    cases t with
    | jump line =>
      rw [value_jump, jump.injEq]
      omega
    | exit status =>
      rw [value_exit]
      constructor
      · intro h
        cases h
      · intro h
        omega
  · rw [ofPacked?_of_neg (Int.not_le.mp hpacked)]
    cases t with
    | jump line =>
      rw [value_jump]
      constructor
      · intro h
        split at h <;> cases h
      · intro h
        omega
    | exit status =>
      have hstatus := status.toNat_lt
      rw [value_exit]
      constructor
      · intro h
        split at h
        · next hfits =>
          obtain rfl : UInt32.ofNat (-(packed.toInt + 1)).toNat = status := by simpa using h
          rw [UInt32.toNat_ofNat_of_lt' (show _ < 2 ^ 32 by omega)]
          omega
        · cases h
      · intro h
        have hnat : (-(packed.toInt + 1)).toNat = status.toNat := by omega
        rw [if_pos (by omega), hnat, UInt32.ofNat_toNat]

theorem ofPacked?_eq_none_iff : ofPacked? packed = none ↔ packed.toInt < -2 ^ 32 := by
  have hexists : (∃ t, ofPacked? packed = some t) ↔ -2 ^ 32 ≤ packed.toInt := by
    simp only [ofPacked?_eq_some_iff, exists_value_iff]
  rw [← Int.not_le, ← hexists]
  cases ofPacked? packed <;> simp

/-- A target that was unpacked packs into the same integer. -/
theorem pack_of_ofPacked? (h : ofPacked? packed = some t) : t.pack = packed := by
  rw [ofPacked?_eq_some_iff] at h
  have hfits : t.Fits := by
    rw [fits_iff, h]
    exact packed.toInt_lt
  rw [← Int64.toInt_inj, toInt_pack hfits, h]

/-- Packed targets round-trip. A target that fits, which is any exit and any line
below 2^63, is unpacked from its packed form. An integer is unpacked to no target
exactly when it is less than -2^32, and otherwise to one that packs into that
integer. No negation, sum or difference on the way leaves 64 bits, for any target
and any integer. -/
theorem pack_roundTrip :
    (∀ t : Target, t.Fits → ofPacked? t.pack = some t) ∧
      (∀ packed : Int64, ofPacked? packed = none ↔ packed.toInt < -2 ^ 32) ∧
      (∀ (packed : Int64) (t : Target), ofPacked? packed = some t → t.pack = packed) ∧
      (∀ t : Target, t.checkedPack = some t.pack) ∧
      ∀ packed : Int64, checkedOfPacked? packed = some (ofPacked? packed) := by
  refine ⟨?_, fun _ => ofPacked?_eq_none_iff, fun _ _ => pack_of_ofPacked?, checkedPack_eq_some,
    checkedOfPacked?_eq_some⟩
  intro t ht
  rw [ofPacked?_eq_some_iff, toInt_pack ht]

/-- The largest status and the largest line, and the integers at and past the ends
of what they stand for. -/
theorem pack_roundTrip_ends :
    (exit 4294967295).Fits ∧ ofPacked? (exit 4294967295).pack = some (exit 4294967295) ∧
      (exit 4294967295).pack = -4294967296 ∧
      (jump 9223372036854775807).Fits ∧
      ofPacked? (jump 9223372036854775807).pack = some (jump 9223372036854775807) ∧
      (-4294967297 : Int64).toInt < -2 ^ 32 ∧ ofPacked? (-4294967297) = none ∧
      ofPacked? (-4294967296) = some (exit 4294967295) ∧
      checkedOfPacked? Int64.minValue = some (ofPacked? Int64.minValue) ∧
      ofPacked? Int64.minValue = none := by
  obtain ⟨hround, hnone, hpack, -, hchecked⟩ := pack_roundTrip
  have hlargest : ofPacked? (-4294967296) = some (exit 4294967295) := by decide
  have hline : (jump 9223372036854775807).Fits := by
    rw [Fits]
    decide
  have hbelow : (-4294967297 : Int64).toInt < -2 ^ 32 := by decide
  have hleast : Int64.minValue.toInt < -2 ^ 32 := by decide
  exact ⟨trivial, hround _ trivial, hpack _ _ hlargest, hline, hround _ hline, hbelow,
    (hnone _).mpr hbelow, hlargest, hchecked _, (hnone _).mpr hleast⟩

end Target

end PixelTurtle
