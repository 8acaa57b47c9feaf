/-!
# Rounding of quotients

Rounding of a quotient of naturals to a natural (`divNearest`) and to a natural with at most 53 significant bits
(`roundSignificant`); in both an exact half goes to the even neighbour.  The key fact is that the second kind of
rounding returns a number of the form `m * 2 ^ s` with `m ≤ 2 ^ 53` (`exists_roundSignificant_eq`).
-/

namespace ThingQuery

/-- The quotient `num / den` rounded to the nearest natural, an exact half going to the even neighbour. -/
def divNearest (num den : Nat) : Nat :=
  let quotient := num / den
  let twice := 2 * (num % den)
  if twice < den then quotient
  else if den < twice then quotient + 1
  else quotient + quotient % 2

theorem divNearest_le (num den : Nat) : divNearest num den ≤ num / den + 1 := by
  unfold divNearest
  dsimp only
  split
  · omega
  · split <;> omega

theorem le_divNearest (num den : Nat) : num / den ≤ divNearest num den := by
  unfold divNearest
  dsimp only
  split
  · omega
  · split <;> omega

/-- The `n`-th power of two. -/
def twoPow (n : Nat) : Nat := Nat.pow 2 n

/-- The `n`-th power of ten. -/
def tenPow (n : Nat) : Nat := Nat.pow 10 n

theorem twoPow_pos (n : Nat) : 0 < twoPow n := Nat.two_pow_pos n

theorem twoPow_add (m n : Nat) : twoPow (m + n) = twoPow m * twoPow n := Nat.pow_add 2 m n

theorem twoPow_le_twoPow {m n : Nat} (h : m ≤ n) : twoPow m ≤ twoPow n := Nat.pow_le_pow_right (by decide) h

/-- The number of binary digits of `n`; zero has none. -/
def bitLength (n : Nat) : Nat := if n = 0 then 0 else n.log2 + 1

theorem lt_twoPow_bitLength (n : Nat) : n < twoPow (bitLength n) := by
  unfold bitLength
  split
  · simp_all [twoPow]
  · exact Nat.lt_log2_self

/-- The number of low binary digits that a value with whole part `n` has to drop to keep 53 of them. -/
def excessBits (n : Nat) : Nat := bitLength n - 53

theorem lt_twoPow_mul_excessBits (n : Nat) : n < twoPow 53 * twoPow (excessBits n) := by
  have h := lt_twoPow_bitLength n
  rw [← twoPow_add]
  refine Nat.lt_of_lt_of_le h (twoPow_le_twoPow ?_)
  unfold excessBits
  omega

/-- The quotient `num / den` rounded to the nearest natural with at most 53 significant bits, an exact half going to
the neighbour whose last kept bit is zero. -/
def roundSignificant (num den : Nat) : Nat :=
  let step := twoPow (excessBits (num / den))
  divNearest num (den * step) * step

/-- Rounding keeps at most 53 significant bits. -/
theorem exists_roundSignificant_eq (num den : Nat) :
    ∃ m s, m ≤ twoPow 53 ∧ roundSignificant num den = m * twoPow s := by
  refine ⟨divNearest num (den * twoPow (excessBits (num / den))), excessBits (num / den), ?_, rfl⟩
  have h := divNearest_le num (den * twoPow (excessBits (num / den)))
  have hq : num / den / twoPow (excessBits (num / den)) < twoPow 53 :=
    Nat.div_lt_of_lt_mul (by
      rw [Nat.mul_comm]
      exact lt_twoPow_mul_excessBits _)
  rw [Nat.div_div_eq_div_mul] at hq
  exact Nat.le_trans h hq

end ThingQuery
