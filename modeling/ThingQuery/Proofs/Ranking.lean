import ThingQuery.Plan.Access
import ThingQuery.Proofs.CostOrder

/-!
# Rankings of filters

Costs serve only to order filters.  A ranking is any order that can take their place: of two filters one ranks at most
as high as the other, and that is transitive.  Filters are sorted, brought into normal form and made tidy by a ranking
as they are by cost, which is one of the rankings (`Ranking.byCost`, `normalize_byCost`, `tidy?_byCost`).
-/

namespace ThingQuery

/-- An order of filters in which any two can be compared. -/
structure Ranking where
  atMost : Filter → Filter → Bool
  trans : ∀ f g h, atMost f g = true → atMost g h = true → atMost f h = true
  total : ∀ f g, (atMost f g || atMost g f) = true

namespace Ranking

variable {ranking : Ranking}

/-! ### Filters in order -/

/-- The filters in order; those that rank alike keep their places. -/
def sort (ranking : Ranking) (filters : List Filter) : List Filter := filters.mergeSort ranking.atMost

/-- Every filter ranks at most as high as the later ones. -/
def Sorted (ranking : Ranking) (filters : List Filter) : Prop :=
  filters.Pairwise fun f g => ranking.atMost f g = true

theorem sorted_sort (ranking : Ranking) (filters : List Filter) : ranking.Sorted (ranking.sort filters) :=
  List.pairwise_mergeSort ranking.trans ranking.total filters

theorem sort_of_sorted {filters : List Filter} (h : ranking.Sorted filters) : ranking.sort filters = filters :=
  List.mergeSort_of_pairwise h

theorem sort_perm (ranking : Ranking) (filters : List Filter) : (ranking.sort filters).Perm filters :=
  List.mergeSort_perm _ _

/-- A filter in front of others in order goes behind those that rank lower. -/
theorem sort_cons {f : Filter} {filters : List Filter} (h : ranking.Sorted filters) :
    ∃ lower rest, ranking.sort (f :: filters) = lower ++ f :: rest ∧ filters = lower ++ rest ∧
      ∀ g ∈ lower, ranking.atMost f g = false := by
  obtain ⟨lower, rest, hsort, hrest, hlower⟩ := List.mergeSort_cons ranking.trans ranking.total f filters
  refine ⟨lower, rest, hsort, ?_, fun g hg => by simpa using hlower g hg⟩
  rw [← hrest]
  exact (sort_of_sorted h).symm

/-! ### Normal forms by a ranking -/

/-- The conjunction of filters in normal form. -/
def conjoin (ranking : Ranking) (filters : List Filter) : Filter :=
  if filters.any Filter.isFalsy then .falsy
  else .all (ranking.sort (filters.flatMap Filter.conjuncts))

/-- The disjunction of filters in normal form. -/
def disjoin (ranking : Ranking) (filters : List Filter) : Filter :=
  if filters.any Filter.isTruthy then .truthy
  else
    let parts := filters.flatMap Filter.disjuncts
    if parts.isEmpty then .falsy else .any (ranking.sort parts)

mutual

/-- The normal form of a filter. -/
def normalize (ranking : Ranking) : Filter → Filter
  | .list op _ [] => .ofEmptyList op
  | .list op left [v] => .scalar op.scalar left v
  | .ref op _ [] _ _ => .ofEmptyList op
  | .ref .containsAll left [id] tables tunnel => .ref .containsAny left [id] tables tunnel
  | .not child => (normalize ranking child).negate
  | .and children => ranking.conjoin (normalizeAll ranking children)
  | .or children => ranking.disjoin (normalizeAll ranking children)
  | .nested path cardinality tunnel inner =>
    match normalize ranking inner with
    | .falsy => .falsy
    | normal => .nested path cardinality tunnel normal
  | .list op left (v :: w :: rest) => .list op left (v :: w :: rest)
  | .ref op left (id :: rest) tables tunnel => .ref op left (id :: rest) tables tunnel
  | .scalar op left right => .scalar op left right
  | .null op left tunnel => .null op left tunnel
  | .falsy => .falsy

/-- The normal forms of a list of filters. -/
def normalizeAll (ranking : Ranking) : List Filter → List Filter
  | [] => []
  | f :: rest => normalize ranking f :: normalizeAll ranking rest

end

theorem normalizeAll_eq_map (ranking : Ranking) (filters : List Filter) :
    ranking.normalizeAll filters = filters.map ranking.normalize := by
  induction filters with
  | nil => rfl
  | cons f rest ih => rw [normalizeAll, ih, List.map_cons]

theorem normalize_ref_cons (ranking : Ranking) (op : ListOp) (left id : String) (rest : List String)
    (tables : Option (List String)) (tunnel : Option String) :
    ranking.normalize (.ref op left (id :: rest) tables tunnel) =
      .ref (if op = .containsAll ∧ rest = [] then .containsAny else op) left (id :: rest) tables tunnel := by
  cases rest <;> cases op <;> simp [normalize]

/-- The filter in normal form with its leading predicate in front, or `none` when it always holds. -/
def tidy? (ranking : Ranking) (schema : Schema) (thing : String) (filter : Filter) : Option Filter :=
  let normal := ranking.normalize filter
  if normal.isTruthy then none else some (normal.reorderFor schema thing)

/-! ### The ranking by cost -/

/-- The order of filters by cost. -/
def byCost : Ranking where
  atMost f g := f.cost.atMost g.cost
  trans _ _ _ := Cost.atMost_trans
  total f g := Cost.atMost_total f.cost g.cost

theorem conjoin_byCost (filters : List Filter) : byCost.conjoin filters = Filter.conjoin filters := rfl

theorem disjoin_byCost (filters : List Filter) : byCost.disjoin filters = Filter.disjoin filters := rfl

mutual

theorem normalize_byCost (filter : Filter) : byCost.normalize filter = filter.normalize := by
  match filter with
  | .list op left [] => rw [normalize, Filter.normalize]
  | .list op left [v] => rw [normalize, Filter.normalize]
  | .list op left (v :: w :: rest) => rw [normalize, Filter.normalize]
  | .ref op left [] tables tunnel => rw [normalize, Filter.normalize]
  | .ref op left (id :: rest) tables tunnel => rw [normalize_ref_cons, Filter.normalize_ref_cons]
  | .not child => rw [normalize, Filter.normalize, normalize_byCost child]
  | .and children => rw [normalize, Filter.normalize, normalizeAll_byCost children, conjoin_byCost]
  | .or children => rw [normalize, Filter.normalize, normalizeAll_byCost children, disjoin_byCost]
  | .nested path cardinality tunnel inner =>
    rw [normalize, Filter.normalize]
    exact congrArg (fun normal => match normal with
      | .falsy => Filter.falsy
      | normal => .nested path cardinality tunnel normal) (normalize_byCost inner)
  | .scalar op left right => rfl
  | .null op left tunnel => rfl
  | .falsy => rfl

theorem normalizeAll_byCost (filters : List Filter) : byCost.normalizeAll filters = Filter.normalizeAll filters := by
  match filters with
  | [] => rfl
  | f :: rest => rw [normalizeAll, Filter.normalizeAll, normalize_byCost f, normalizeAll_byCost rest]

end

theorem tidy?_byCost (schema : Schema) (thing : String) (filter : Filter) :
    byCost.tidy? schema thing filter = filter.tidy? schema thing := by
  rw [tidy?, Filter.tidy?, normalize_byCost]

end Ranking

namespace Filter

/-- The filters stand by increasing cost. -/
def ByCost (filters : List Filter) : Prop := filters.Pairwise fun f g => (cost f).atMost (cost g) = true

theorem byCost_sortByCost (filters : List Filter) : ByCost (sortByCost filters) := Ranking.byCost.sorted_sort filters

theorem sortByCost_of_byCost {filters : List Filter} (h : ByCost filters) : sortByCost filters = filters :=
  Ranking.sort_of_sorted (show Ranking.byCost.Sorted filters from h)

/-- A filter in front of others that stand by increasing cost goes behind the cheaper ones. -/
theorem sortByCost_cons {f : Filter} {filters : List Filter} (h : ByCost filters) :
    ∃ cheaper rest, sortByCost (f :: filters) = cheaper ++ f :: rest ∧ filters = cheaper ++ rest ∧
      ∀ g ∈ cheaper, (cost f).atMost (cost g) = false :=
  Ranking.sort_cons (show Ranking.byCost.Sorted filters from h)

end Filter

end ThingQuery
