import ThingQuery.Number.Magnitude

/-!
# Signed 64-bit binary floating-point numbers

A finite number is a sign and a magnitude, so that zero has two forms.  The two zeros are the same value (`value`),
and numbers are compared by value.
-/

namespace ThingQuery

/-- A finite number of the 64-bit binary format. -/
structure Binary64 where
  /-- Whether the sign is minus; zero has either sign. -/
  negative : Bool
  magnitude : Magnitude
  deriving DecidableEq

namespace Binary64

/-- The exact value in units of `2 ^ -1074`. -/
def value (x : Binary64) : Int :=
  if x.negative then -(x.magnitude.units : Int) else x.magnitude.units

/-- Equality by value, for which the two zeros are equal. -/
instance : BEq Binary64 where
  beq x y := x.value == y.value

theorem beq_iff_value_eq {x y : Binary64} : (x == y) = true ↔ x.value = y.value := by
  simp [BEq.beq]

/-- The number zero without a sign. -/
def zero : Binary64 := ⟨false, Magnitude.zero⟩

/-- The value, in units of `2 ^ -1074`, of the number nearest to an integer. -/
def valueOfInt (i : Int) : Int :=
  let units : Int := roundSignificant (i.natAbs * unitsPerOne) 1
  if i < 0 then -units else units

end Binary64

end ThingQuery
