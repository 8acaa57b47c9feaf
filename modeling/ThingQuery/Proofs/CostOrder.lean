import ThingQuery.Filter.Cost

/-!
# The order of costs

Costs are totally ordered (`atMost_trans`, `atMost_total`).  Rounding does not take a number below a power of two that
it was not below (`twoPow_le_roundSignificant`), so costs that are built from parts of at least one are at least one:
nothing costs less than an equality does.
-/

namespace ThingQuery

theorem twoPow_le_of_bitLength {n k : Nat} (h : k < bitLength n) : twoPow k ≤ n := by
  unfold bitLength at h
  split at h
  · omega
  · rename_i hn
    exact Nat.le_trans (twoPow_le_twoPow (by omega)) (Nat.log2_self_le hn)

/-- Rounding does not go below a power of two. -/
theorem twoPow_le_roundSignificant {num den k : Nat} (h : twoPow k ≤ num / den) :
    twoPow k ≤ roundSignificant num den := by
  unfold roundSignificant
  dsimp only
  generalize he : excessBits (num / den) = e
  have hquotient : num / den / twoPow e ≤ divNearest num (den * twoPow e) := by
    rw [Nat.div_div_eq_div_mul]
    exact le_divNearest _ _
  suffices hwhole : twoPow k ≤ num / den / twoPow e * twoPow e from
    Nat.le_trans hwhole (Nat.mul_le_mul_right _ hquotient)
  rcases Nat.le_total e k with hek | hke
  · obtain ⟨d, rfl⟩ := Nat.exists_eq_add_of_le hek
    rw [Nat.add_comm, twoPow_add] at h ⊢
    exact Nat.mul_le_mul_right _ ((Nat.le_div_iff_mul_le (twoPow_pos e)).2 h)
  · -- all dropped digits are below the leading one
    have hone : 1 ≤ num / den / twoPow e := by
      rw [Nat.le_div_iff_mul_le (twoPow_pos e), Nat.one_mul]
      rcases Nat.eq_zero_or_pos e with rfl | hpos
      · exact Nat.le_trans (twoPow_le_twoPow (Nat.zero_le k)) h
      · refine twoPow_le_of_bitLength ?_
        unfold excessBits at he
        omega
    calc twoPow k ≤ 1 * twoPow e := by rw [Nat.one_mul]; exact twoPow_le_twoPow hke
      _ ≤ num / den / twoPow e * twoPow e := Nat.mul_le_mul_right _ hone

theorem unitsPerOne_lt_unitsLimit : unitsPerOne < unitsLimit := by decide +kernel

def Magnitude.one : Magnitude where
  units := unitsPerOne
  coarse := ⟨1, 1074, twoPow_pos 53, by simp only [Nat.one_mul, unitsPerOne]⟩
  bounded := unitsPerOne_lt_unitsLimit

theorem Magnitude.units_one : Magnitude.one.units = unitsPerOne := by
  simp only [Magnitude.one]

namespace Cost

theorem finite_atMost_iff {x : Magnitude} {a : Cost} :
    (finite x).atMost a = true ↔ ∀ amount, a = .finite amount → x.units ≤ amount.units := by
  cases a <;> simp [atMost]

theorem atMost_refl (a : Cost) : a.atMost a = true := by
  cases a <;> simp [atMost]

theorem atMost_trans {a b c : Cost} (hab : a.atMost b = true) (hbc : b.atMost c = true) : a.atMost c = true := by
  cases a <;> cases b <;> cases c <;> simp_all [atMost]
  omega

theorem atMost_total (a b : Cost) : (a.atMost b || b.atMost a) = true := by
  cases a <;> cases b <;> simp [atMost]
  omega

/-- The cost is at least one. -/
def AtLeastOne (a : Cost) : Prop := (tenths 10).atMost a = true

theorem tenths_ten : tenths 10 = .finite .one := by decide +kernel

theorem atLeastOne_iff {a : Cost} : a.AtLeastOne ↔ ∀ amount, a = .finite amount → unitsPerOne ≤ amount.units := by
  unfold AtLeastOne
  rw [tenths_ten, finite_atMost_iff, Magnitude.units_one]

theorem atLeastOne_infinite : infinite.AtLeastOne := atLeastOne_iff.2 (by simp)

/-- A rounded amount is at least one if the exact one is. -/
theorem atLeastOne_ofAmount {num den : Nat} (h : unitsPerOne ≤ num / den) :
    (ofAmount (Magnitude.ofUnits? num den)).AtLeastOne := by
  refine atLeastOne_iff.2 fun amount hamount => ?_
  cases hunits : Magnitude.ofUnits? num den with
  | none =>
    rw [hunits] at hamount
    cases hamount
  | some a =>
    rw [hunits] at hamount
    cases hamount
    rw [Magnitude.units_of_ofUnits? hunits]
    exact twoPow_le_roundSignificant h

theorem atLeastOne_tenths {n : Nat} (h : 10 ≤ n) : (tenths n).AtLeastOne := by
  have hten : tenPow (-(-1 : Int)).toNat = 10 := by decide
  rw [tenths, Decimal.nearest?, if_neg (by simp)]
  dsimp only
  rw [hten]
  refine atLeastOne_ofAmount ((Nat.le_div_iff_mul_le (by decide)).2 ?_)
  rw [Nat.mul_comm]
  exact Nat.mul_le_mul_right _ h

theorem AtLeastOne.add_left {a : Cost} (h : a.AtLeastOne) (b : Cost) : (a.add b).AtLeastOne := by
  cases a with
  | infinite => cases b <;> exact atLeastOne_infinite
  | finite x =>
    cases b with
    | infinite => exact atLeastOne_infinite
    | finite y =>
      have hx := atLeastOne_iff.1 h x rfl
      rw [add, Magnitude.add?]
      refine atLeastOne_ofAmount ?_
      rw [Nat.div_one]
      omega

theorem AtLeastOne.add_right (a : Cost) {b : Cost} (h : b.AtLeastOne) : (a.add b).AtLeastOne := by
  have hcomm : a.add b = b.add a := by
    cases a <;> cases b <;> simp [add, Magnitude.add?, Nat.add_comm]
  rw [hcomm]
  exact h.add_left a

theorem AtLeastOne.mul {a b : Cost} (ha : a.AtLeastOne) (hb : b.AtLeastOne) : (a.mul b).AtLeastOne := by
  cases a with
  | infinite => cases b <;> exact atLeastOne_infinite
  | finite x =>
    cases b with
    | infinite => exact atLeastOne_infinite
    | finite y =>
      have hx := atLeastOne_iff.1 ha x rfl
      have hy := atLeastOne_iff.1 hb y rfl
      rw [Cost.mul, Magnitude.mul?]
      refine atLeastOne_ofAmount ?_
      rw [Nat.le_div_iff_mul_le unitsPerOne_pos]
      exact Nat.mul_le_mul hx hy

theorem AtLeastOne.mulPower {result base : Cost} (hresult : result.AtLeastOne) (hbase : base.AtLeastOne) (n : Nat) :
    (result.mulPower base n).AtLeastOne := by
  have hnext : ∀ (result base : Cost) (n : Nat), result.AtLeastOne → base.AtLeastOne →
      (if n % 2 = 1 then result.mul base else result).AtLeastOne := by
    intro result base n hresult hbase
    split
    · exact hresult.mul hbase
    · exact hresult
  fun_induction Cost.mulPower result base n with
  | case1 => exact hresult
  | case2 result base n => exact hnext result base n hresult hbase
  | case3 result base n _ _ _ ih => exact ih (hnext result base n hresult hbase) (hbase.mul hbase)

theorem AtLeastOne.power {base : Cost} (h : base.AtLeastOne) (n : Nat) : (base.power n).AtLeastOne :=
  AtLeastOne.mulPower (atMost_refl _) h n

theorem AtLeastOne.sum {costs : List Cost} {a : Cost} (ha : a ∈ costs) (h : a.AtLeastOne) : (sum costs).AtLeastOne := by
  unfold Cost.sum
  generalize zero = start
  induction costs generalizing start with
  | nil => cases ha
  | cons b rest ih =>
    have hkeep : ∀ (costs : List Cost) {start : Cost}, start.AtLeastOne → (costs.foldl add start).AtLeastOne := by
      intro costs
      induction costs with
      | nil => exact fun h => h
      | cons c rest ih => exact fun h => ih (h.add_left c)
    rw [List.foldl_cons]
    rcases List.mem_cons.1 ha with rfl | ha
    · exact hkeep rest (h.add_right start)
    · exact ih ha _

end Cost

theorem ScalarOp.atLeastOne_cost (op : ScalarOp) : op.cost.AtLeastOne := by
  cases op <;> exact Cost.atLeastOne_tenths (by decide)

theorem ListOp.atLeastOne_costBase (op : ListOp) : op.costBase.AtLeastOne := by
  cases op <;> exact Cost.atLeastOne_tenths (by decide)

theorem ListOp.atLeastOne_pointerCostBase (op : ListOp) : op.pointerCostBase.AtLeastOne :=
  op.atLeastOne_costBase.add_left _

end ThingQuery
