import ThingQuery.Filter.Cost

/-!
# The normal form of filters

In normal form no list is empty and no list has a single value, connectives hold at least two filters and none of their
own kind, a negation stands only where no operator expresses it, and the parts of a connective are ordered by cost.
A filter that always holds is the empty conjunction, and one that never holds is `falsy`.
-/

namespace ThingQuery

namespace Filter

/-- The negation of a filter in normal form. -/
def negate : Filter → Filter
  | .falsy => truthy
  | .and [] => .falsy
  | .not child => child
  | .scalar .eq left right => .scalar .ne left right
  | .scalar .ne left right => .scalar .eq left right
  | other => .not other

/-- Whether the filter is `falsy`. -/
def isFalsy : Filter → Bool
  | .falsy => true
  | _ => false

/-- The parts that a filter contributes to a disjunction. -/
def disjuncts : Filter → List Filter
  | .falsy => []
  | .or children => children
  | other => [other]

/-- The conjunction of filters in normal form. -/
def conjoin (filters : List Filter) : Filter :=
  if filters.any isFalsy then .falsy
  else all (sortByCost (filters.flatMap conjuncts))

/-- The disjunction of filters in normal form. -/
def disjoin (filters : List Filter) : Filter :=
  if filters.any isTruthy then truthy
  else
    let parts := filters.flatMap disjuncts
    if parts.isEmpty then .falsy else any (sortByCost parts)

/-- The filter that an operator gives for an empty list. -/
def ofEmptyList (op : ListOp) : Filter := if op.isPositive then .falsy else truthy

mutual

/-- The normal form of a filter. -/
def normalize : Filter → Filter
  | .list op _ [] => ofEmptyList op
  | .list op left [v] => .scalar op.scalar left v
  | .ref op _ [] _ _ => ofEmptyList op
  | .ref .containsAll left [id] tables tunnel => .ref .containsAny left [id] tables tunnel
  | .not child => negate (normalize child)
  | .and children => conjoin (normalizeAll children)
  | .or children => disjoin (normalizeAll children)
  | .nested path cardinality tunnel inner =>
    match normalize inner with
    | .falsy => .falsy
    | normal => .nested path cardinality tunnel normal
  | .list op left (v :: w :: rest) => .list op left (v :: w :: rest)
  | .ref op left (id :: rest) tables tunnel => .ref op left (id :: rest) tables tunnel
  | .scalar op left right => .scalar op left right
  | .null op left tunnel => .null op left tunnel
  | .falsy => .falsy

/-- The normal forms of a list of filters. -/
def normalizeAll : List Filter → List Filter
  | [] => []
  | f :: rest => normalize f :: normalizeAll rest

end

theorem normalizeAll_eq_map (filters : List Filter) : normalizeAll filters = filters.map normalize := by
  induction filters with
  | nil => rfl
  | cons f rest ih => rw [normalizeAll, ih, List.map_cons]

theorem normalize_ref_cons (op : ListOp) (left id : String) (rest : List String) (tables : Option (List String))
    (tunnel : Option String) :
    normalize (.ref op left (id :: rest) tables tunnel) =
      .ref (if op = .containsAll ∧ rest = [] then .containsAny else op) left (id :: rest) tables tunnel := by
  cases rest <;> cases op <;> simp [normalize]

end Filter

end ThingQuery
