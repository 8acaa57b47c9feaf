import ThingQuery.Filter.Basic

/-!
# Costs of filters

The cost of a filter is an estimate that only serves to order filters: cheaper ones are tried first.  Comparisons with a
list of `n` values cost the `n`-th power of a base, so that long lists come last.  Costs are rounded as 64-bit binary
numbers are, and may become infinite.
-/

namespace ThingQuery

/-- A cost. -/
inductive Cost where
  | finite (amount : Magnitude)
  /-- A cost that is too large to be told. -/
  | infinite
  deriving DecidableEq

namespace Cost

/-- A rounded amount, which is infinite when it is too large. -/
def ofAmount : Option Magnitude → Cost
  | some amount => .finite amount
  | none => .infinite

/-- No cost. -/
def zero : Cost := .finite .zero

/-- The cost of `n` tenths. -/
def tenths (n : Nat) : Cost := ofAmount (Decimal.nearest? ⟨n, -1⟩)

/-- The rounded sum. -/
def add : Cost → Cost → Cost
  | .finite a, .finite b => ofAmount (a.add? b)
  | _, _ => .infinite

/-- The rounded product of positive costs. -/
def mul : Cost → Cost → Cost
  | .finite a, .finite b => ofAmount (a.mul? b)
  | _, _ => .infinite

/-- The product of `result` with the `n`-th power of `base`, by repeated squaring: the base is squared for every binary
digit of `n` and multiplied in where the digit is one. -/
def mulPower (result base : Cost) (n : Nat) : Cost :=
  if n = 0 then result
  else
    let next := if n % 2 = 1 then result.mul base else result
    if n / 2 = 0 then next else mulPower next (base.mul base) (n / 2)
termination_by n

/-- The `n`-th power. -/
def power (base : Cost) (n : Nat) : Cost := mulPower (tenths 10) base n

/-- The sum from left to right. -/
def sum (costs : List Cost) : Cost := costs.foldl add zero

/-- Whether the first cost is at most the second. -/
def atMost : Cost → Cost → Bool
  | .finite a, .finite b => decide (a.units ≤ b.units)
  | _, .infinite => true
  | .infinite, .finite _ => false

end Cost

/-- The cost of a comparison with one value. -/
def ScalarOp.cost : ScalarOp → Cost
  | .eq => .tenths 10
  | .ne => .tenths 20
  | .gt | .lt | .gte | .lte => .tenths 30
  | .contains => .tenths 40
  | .containsNot => .tenths 50

/-- The base for the cost of a comparison with a list. -/
def ListOp.costBase : ListOp → Cost
  | .isIn => .tenths 12
  | .notIn => .tenths 14
  | .containsAny => .tenths 16
  | .containsAll => .tenths 18
  | .containsNone => .tenths 20

/-- The base for the cost of a comparison of pointers, which is a little more. -/
def ListOp.pointerCostBase (op : ListOp) : Cost := op.costBase.add (.tenths 1)

namespace Filter

mutual

/-- The cost of a filter. -/
def cost : Filter → Cost
  | .falsy => .zero
  | .scalar op _ _ => op.cost
  | .list op _ right => op.costBase.power right.length
  | .ref op _ right _ _ => op.pointerCostBase.power right.length
  | .null _ _ _ => .tenths 25
  | .not child => (cost child).add (.tenths 10)
  | .nested _ _ _ inner => (Cost.tenths 100).add (cost inner)
  | .and children => .sum (childCosts children)
  | .or children => .sum (childCosts children)

/-- The costs of a list of filters. -/
def childCosts : List Filter → List Cost
  | [] => []
  | f :: rest => cost f :: childCosts rest

end

/-- The filters by increasing cost; equally costly ones keep their order. -/
def sortByCost (filters : List Filter) : List Filter :=
  filters.mergeSort fun f g => (cost f).atMost (cost g)

end Filter

end ThingQuery
