import ThingQuery.Number.Rounding

/-!
# Magnitudes of 64-bit binary floating-point numbers

A finite magnitude is a natural number of units of `2 ^ -1074`, the smallest positive one, with at most 53 significant
bits and below `2 ^ 1024`.  Sums, products and quotients are computed exactly and rounded once; a result that would
be too large is `none`.
-/

namespace ThingQuery

/-- How many units make the number one. -/
def unitsPerOne : Nat := twoPow 1074

theorem unitsPerOne_pos : 0 < unitsPerOne := twoPow_pos _

/-- The number `2 ^ 1024` in units; every finite magnitude is below it. -/
def unitsLimit : Nat := twoPow 2098

theorem unitsLimit_pos : 0 < unitsLimit := twoPow_pos _

/-- A finite non-negative number of the 64-bit binary format. -/
structure Magnitude where
  /-- The number in units of `2 ^ -1074`. -/
  units : Nat
  coarse : ∃ m s, m ≤ twoPow 53 ∧ units = m * twoPow s
  bounded : units < unitsLimit
  deriving DecidableEq

namespace Magnitude

/-- Zero. -/
def zero : Magnitude := ⟨0, ⟨0, 0, Nat.zero_le _, rfl⟩, unitsLimit_pos⟩

/-- The magnitude nearest to `num / den` units, or `none` when that is `2 ^ 1024` or more. -/
def ofUnits? (num den : Nat) : Option Magnitude :=
  if h : roundSignificant num den < unitsLimit then
    some ⟨roundSignificant num den, exists_roundSignificant_eq num den, h⟩
  else
    none

/-- The magnitude nearest to the natural number `n`. -/
def ofNat? (n : Nat) : Option Magnitude := ofUnits? (n * unitsPerOne) 1

/-- The rounded sum. -/
def add? (a b : Magnitude) : Option Magnitude := ofUnits? (a.units + b.units) 1

/-- The rounded product. -/
def mul? (a b : Magnitude) : Option Magnitude := ofUnits? (a.units * b.units) unitsPerOne

/-- The rounded quotient by a positive divisor. -/
def div? (a b : Magnitude) : Option Magnitude := ofUnits? (a.units * unitsPerOne) b.units

theorem units_of_ofUnits? {num den : Nat} {a : Magnitude} (h : ofUnits? num den = some a) :
    a.units = roundSignificant num den := by
  unfold ofUnits? at h
  split at h
  · cases h
    rfl
  · cases h

theorem ofUnits?_eq_none_iff {num den : Nat} :
    ofUnits? num den = none ↔ unitsLimit ≤ roundSignificant num den := by
  unfold ofUnits?
  split <;> simp <;> omega

/-- The natural number that the magnitude is, if it is one. -/
def toNat? (a : Magnitude) : Option Nat :=
  if a.units % unitsPerOne = 0 then some (a.units / unitsPerOne) else none

theorem toNat?_eq_some_iff {a : Magnitude} {n : Nat} : a.toNat? = some n ↔ a.units = n * unitsPerOne := by
  unfold toNat?
  constructor
  · intro h
    split at h
    · rename_i hmod
      cases h
      exact (Nat.div_mul_cancel (Nat.dvd_of_mod_eq_zero hmod)).symm
    · cases h
  · intro h
    rw [h, Nat.mul_mod_left, if_pos rfl, Nat.mul_div_cancel _ unitsPerOne_pos]

end Magnitude

end ThingQuery
