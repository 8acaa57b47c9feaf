import ThingQuery.Proofs.Ranking

/-!
# Normal forms

A filter in normal form is `falsy`, the empty conjunction, or proper (`Ranking.IsProper`): no part of it can be written
more simply, and the parts of its connectives are in the order of a ranking.  Whatever the ranking, normalizing brings
every filter into normal form (`Ranking.isNormal_normalize`) and changes nothing in one that is
(`Ranking.normalize_of_isNormal`).  So a filter is in normal form by cost exactly when it is its own normal form
(`Filter.isNormal_normalize_and_normalize_eq_iff`).  Nothing proper costs less than an equality
(`Filter.atLeastOne_cost_of_isProper`).
-/

namespace ThingQuery

namespace Filter

def isAnd : Filter → Bool
  | .and _ => true
  | _ => false

def isOr : Filter → Bool
  | .or _ => true
  | _ => false

/-- Whether the negation of the filter is written without a negation. -/
def hasOpposite : Filter → Bool
  | .not _ | .scalar .eq _ _ | .scalar .ne _ _ => true
  | _ => false

end Filter

namespace Ranking

/-- The filter is in normal form and neither `falsy` nor the empty conjunction. -/
inductive IsProper (ranking : Ranking) : Filter → Prop where
  /-- Comparisons with a value are simple. -/
  | scalar {op : ScalarOp} {left : String} {right : Json} : IsProper ranking (.scalar op left right)
  | list {op : ListOp} {left : String} {right : List Json} (hlen : 2 ≤ right.length) :
    IsProper ranking (.list op left right)
  /-- There are keys, and that all of them are pointed to is asked of more than one. -/
  | ref {op : ListOp} {left : String} {ids : List String} {tables : Option (List String)} {tunnel : Option String}
    (hids : ids ≠ []) (hop : ¬(op = .containsAll ∧ ids.length = 1)) : IsProper ranking (.ref op left ids tables tunnel)
  | null {op : NullOp} {left : String} {tunnel : Option String} : IsProper ranking (.null op left tunnel)
  /-- A conjunction has at least two parts in order, none of which is a conjunction. -/
  | and {children : List Filter} (hlen : 2 ≤ children.length) (hproper : ∀ f ∈ children, IsProper ranking f)
    (hflat : ∀ f ∈ children, f.isAnd = false) (hsorted : ranking.Sorted children) : IsProper ranking (.and children)
  /-- A disjunction has at least two parts in order, none of which is a disjunction. -/
  | or {children : List Filter} (hlen : 2 ≤ children.length) (hproper : ∀ f ∈ children, IsProper ranking f)
    (hflat : ∀ f ∈ children, f.isOr = false) (hsorted : ranking.Sorted children) : IsProper ranking (.or children)
  /-- A negation stands only where it cannot be avoided. -/
  | not {child : Filter} (hproper : IsProper ranking child) (hopposite : child.hasOpposite = false) :
    IsProper ranking (.not child)
  /-- There may be no condition on related records. -/
  | nestedTruthy {path : String} {cardinality : Cardinality} {tunnel : Option String} :
    IsProper ranking (.nested path cardinality tunnel .truthy)
  /-- The condition on related records is proper. -/
  | nested {path : String} {cardinality : Cardinality} {tunnel : Option String} {inner : Filter}
    (hproper : IsProper ranking inner) : IsProper ranking (.nested path cardinality tunnel inner)

/-- The filter is in normal form. -/
def IsNormal (ranking : Ranking) (filter : Filter) : Prop :=
  filter = .falsy ∨ filter = .truthy ∨ ranking.IsProper filter

variable {ranking : Ranking} {filter : Filter}

theorem IsProper.isFalsy (h : ranking.IsProper filter) : filter.isFalsy = false := by
  cases h <;> rfl

theorem IsProper.isTruthy (h : ranking.IsProper filter) : filter.isTruthy = false := by
  cases h with
  | and hlen =>
    rename_i children
    cases children with
    | nil => simp at hlen
    | cons f rest => rfl
  | _ => rfl

theorem IsProper.isNormal (h : ranking.IsProper filter) : ranking.IsNormal filter := .inr (.inr h)

end Ranking

/-! ### Parts of normal forms -/

namespace Filter

theorem conjuncts_of_not_isAnd {filter : Filter} (h : filter.isAnd = false) : filter.conjuncts = [filter] := by
  unfold conjuncts
  split
  · cases h
  · rfl

theorem disjuncts_of_not_isOr {filter : Filter} (h : filter.isOr = false) (hf : filter.isFalsy = false) :
    filter.disjuncts = [filter] := by
  unfold disjuncts
  split
  · cases hf
  · cases h
  · rfl

theorem all_of_two_le {filters : List Filter} (h : 2 ≤ filters.length) : all filters = .and filters := by
  match filters with
  | [] => rfl
  | [_] => simp at h
  | _ :: _ :: _ => rfl

theorem any_of_two_le {filters : List Filter} (h : 2 ≤ filters.length) : any filters = .or filters := by
  match filters with
  | [] => rfl
  | [_] => simp at h
  | _ :: _ :: _ => rfl

end Filter

namespace Ranking

variable {ranking : Ranking} {filter : Filter}

/-- The parts that a normal form contributes to a conjunction. -/
theorem IsNormal.conjuncts (h : ranking.IsNormal filter) (hf : filter.isFalsy = false) :
    ∀ g ∈ filter.conjuncts, ranking.IsProper g ∧ g.isAnd = false := by
  rcases h with rfl | rfl | h
  · cases hf
  · simp [Filter.conjuncts, Filter.truthy]
  · cases ha : filter.isAnd with
    | false => simpa [Filter.conjuncts_of_not_isAnd ha, ha] using h
    | true =>
      cases h with
      | and _ hproper hflat => exact fun g hg => ⟨hproper g hg, hflat g hg⟩
      | _ => cases ha

/-- The parts that a normal form contributes to a disjunction. -/
theorem IsNormal.disjuncts (h : ranking.IsNormal filter) (ht : filter.isTruthy = false) :
    ∀ g ∈ filter.disjuncts, ranking.IsProper g ∧ g.isOr = false := by
  rcases h with rfl | rfl | h
  · simp [Filter.disjuncts]
  · cases ht
  · cases ho : filter.isOr with
    | false => simpa [Filter.disjuncts_of_not_isOr ho h.isFalsy, ho] using h
    | true =>
      cases h with
      | or _ hproper hflat => exact fun g hg => ⟨hproper g hg, hflat g hg⟩
      | _ => cases ho

/-! ### Normalization gives normal forms -/

theorem isNormal_ofEmptyList (ranking : Ranking) (op : ListOp) : ranking.IsNormal (.ofEmptyList op) := by
  unfold Filter.ofEmptyList
  split
  · exact .inl rfl
  · exact .inr (.inl rfl)

theorem isNormal_conjoin {filters : List Filter} (h : ∀ f ∈ filters, ranking.IsNormal f) :
    ranking.IsNormal (ranking.conjoin filters) := by
  unfold conjoin
  split
  · exact .inl rfl
  · rename_i hfalsy
    have hparts : ∀ g ∈ ranking.sort (filters.flatMap Filter.conjuncts), ranking.IsProper g ∧ g.isAnd = false := by
      intro g hg
      obtain ⟨f, hf, hgf⟩ := List.mem_flatMap.1 ((ranking.sort_perm _).mem_iff.1 hg)
      exact (h f hf).conjuncts (by simpa using fun hff => hfalsy (List.any_eq_true.2 ⟨f, hf, hff⟩)) g hgf
    have hsorted := ranking.sorted_sort (filters.flatMap Filter.conjuncts)
    generalize ranking.sort (filters.flatMap Filter.conjuncts) = parts at hparts hsorted
    match parts with
    | [] => exact .inr (.inl rfl)
    | [g] => exact (hparts g List.mem_cons_self).1.isNormal
    | g :: g' :: rest =>
      exact (IsProper.and (by simp) (fun f hf => (hparts f hf).1) (fun f hf => (hparts f hf).2) hsorted).isNormal

theorem isNormal_disjoin {filters : List Filter} (h : ∀ f ∈ filters, ranking.IsNormal f) :
    ranking.IsNormal (ranking.disjoin filters) := by
  unfold disjoin
  split
  · exact .inr (.inl rfl)
  · rename_i htruthy
    dsimp only
    split
    · exact .inl rfl
    · rename_i hne
      have hparts : ∀ g ∈ ranking.sort (filters.flatMap Filter.disjuncts), ranking.IsProper g ∧ g.isOr = false := by
        intro g hg
        obtain ⟨f, hf, hgf⟩ := List.mem_flatMap.1 ((ranking.sort_perm _).mem_iff.1 hg)
        exact (h f hf).disjuncts (by simpa using fun hff => htruthy (List.any_eq_true.2 ⟨f, hf, hff⟩)) g hgf
      have hsorted := ranking.sorted_sort (filters.flatMap Filter.disjuncts)
      have hlen := (ranking.sort_perm (filters.flatMap Filter.disjuncts)).length_eq
      generalize ranking.sort (filters.flatMap Filter.disjuncts) = parts at hparts hsorted hlen
      match parts with
      | [] => simp [List.eq_nil_of_length_eq_zero hlen.symm] at hne
      | [g] => exact (hparts g List.mem_cons_self).1.isNormal
      | g :: g' :: rest =>
        exact (IsProper.or (by simp) (fun f hf => (hparts f hf).1) (fun f hf => (hparts f hf).2) hsorted).isNormal

theorem IsProper.negate (h : ranking.IsProper filter) (ho : filter.hasOpposite = false) :
    filter.negate = .not filter := by
  unfold Filter.negate
  split
  · cases h.isFalsy
  · cases h.isTruthy
  · cases ho
  · cases ho
  · cases ho
  · rfl

theorem IsNormal.negate (h : ranking.IsNormal filter) : ranking.IsNormal filter.negate := by
  rcases h with rfl | rfl | h
  · exact .inr (.inl rfl)
  · exact .inl rfl
  · cases ho : filter.hasOpposite with
    | false =>
      rw [h.negate ho]
      exact (IsProper.not h ho).isNormal
    | true =>
      unfold Filter.hasOpposite at ho
      split at ho
      · cases h with
        | not hproper => exact hproper.isNormal
      · exact IsProper.scalar.isNormal
      · exact IsProper.scalar.isNormal
      · cases ho

theorem IsNormal.nested {path : String} {cardinality : Cardinality} {tunnel : Option String} {inner : Filter} :
    ranking.IsNormal inner → ranking.IsNormal (match inner with
      | .falsy => Filter.falsy
      | normal => .nested path cardinality tunnel normal) := by
  rintro (rfl | rfl | h)
  · exact .inl rfl
  · exact IsProper.nestedTruthy.isNormal
  · split
    · exact .inl rfl
    · exact (IsProper.nested h).isNormal

mutual

theorem isNormal_normalize (ranking : Ranking) (filter : Filter) : ranking.IsNormal (ranking.normalize filter) := by
  match filter with
  | .list op left [] =>
    rw [normalize]
    exact isNormal_ofEmptyList ranking op
  | .list op left [v] =>
    rw [normalize]
    exact IsProper.scalar.isNormal
  | .list op left (v :: w :: rest) =>
    rw [normalize]
    exact (IsProper.list (by simp)).isNormal
  | .ref op left [] tables tunnel =>
    rw [normalize]
    exact isNormal_ofEmptyList ranking op
  | .ref op left (id :: rest) tables tunnel =>
    rw [normalize_ref_cons]
    refine (IsProper.ref (List.cons_ne_nil _ _) ?_).isNormal
    split
    · simp
    · rename_i hop
      simpa using hop
  | .not child =>
    rw [normalize]
    exact (isNormal_normalize ranking child).negate
  | .and children =>
    rw [normalize, normalizeAll_eq_map]
    exact isNormal_conjoin (List.forall_mem_map.2 (isNormal_normalizeAll ranking children))
  | .or children =>
    rw [normalize, normalizeAll_eq_map]
    exact isNormal_disjoin (List.forall_mem_map.2 (isNormal_normalizeAll ranking children))
  | .nested path cardinality tunnel inner =>
    rw [normalize]
    exact (isNormal_normalize ranking inner).nested
  | .scalar op left right => exact IsProper.scalar.isNormal
  | .null op left tunnel => exact IsProper.null.isNormal
  | .falsy => exact .inl rfl

theorem isNormal_normalizeAll (ranking : Ranking) (filters : List Filter) :
    ∀ f ∈ filters, ranking.IsNormal (ranking.normalize f) := by
  match filters with
  | [] => simp
  | f :: rest => exact List.forall_mem_cons.2 ⟨isNormal_normalize ranking f, isNormal_normalizeAll ranking rest⟩

end

/-! ### Normalization keeps normal forms -/

theorem flatMap_eq_self {α : Type} {f : α → List α} {xs : List α} (h : ∀ x ∈ xs, f x = [x]) : xs.flatMap f = xs := by
  induction xs with
  | nil => rfl
  | cons x rest ih =>
    rw [List.forall_mem_cons] at h
    rw [List.flatMap_cons, h.1, ih h.2, List.singleton_append]

theorem normalize_truthy (ranking : Ranking) : ranking.normalize .truthy = .truthy := by
  simp [Filter.truthy, normalize, normalizeAll, conjoin, sort, Filter.all]

/-- A conjunction of proper parts is sorted, and nothing else happens. -/
theorem normalize_and {children : List Filter} (hlen : 2 ≤ children.length)
    (hproper : ∀ f ∈ children, ranking.IsProper f) (hflat : ∀ f ∈ children, f.isAnd = false)
    (hfixed : ∀ f ∈ children, ranking.normalize f = f) :
    ranking.normalize (.and children) = .and (ranking.sort children) := by
  have hnone : children.any Filter.isFalsy = false := by
    rw [List.any_eq_false]
    exact fun f hf => by simp [(hproper f hf).isFalsy]
  have hparts : children.flatMap Filter.conjuncts = children :=
    flatMap_eq_self fun f hf => Filter.conjuncts_of_not_isAnd (hflat f hf)
  rw [normalize, normalizeAll_eq_map, List.map_congr_left hfixed, List.map_id', conjoin, hnone, hparts]
  exact Filter.all_of_two_le (by rw [(ranking.sort_perm children).length_eq]; exact hlen)

theorem normalize_or {children : List Filter} (hlen : 2 ≤ children.length)
    (hproper : ∀ f ∈ children, ranking.IsProper f) (hflat : ∀ f ∈ children, f.isOr = false)
    (hfixed : ∀ f ∈ children, ranking.normalize f = f) :
    ranking.normalize (.or children) = .or (ranking.sort children) := by
  have hnone : children.any Filter.isTruthy = false := by
    rw [List.any_eq_false]
    exact fun f hf => by simp [(hproper f hf).isTruthy]
  have hparts : children.flatMap Filter.disjuncts = children :=
    flatMap_eq_self fun f hf => Filter.disjuncts_of_not_isOr (hflat f hf) (hproper f hf).isFalsy
  have hne : children.isEmpty = false := by
    cases children with
    | nil => simp at hlen
    | cons => rfl
  rw [normalize, normalizeAll_eq_map, List.map_congr_left hfixed, List.map_id', disjoin, hnone, hparts]
  dsimp only
  rw [hne]
  exact Filter.any_of_two_le (by rw [(ranking.sort_perm children).length_eq]; exact hlen)

theorem normalize_of_isProper (h : ranking.IsProper filter) : ranking.normalize filter = filter := by
  induction h with
  | scalar => rfl
  | @list op left right hlen =>
    match right, hlen with
    | _ :: _ :: _, _ => rw [normalize]
  | @ref op left ids tables tunnel hids hop =>
    cases ids with
    | nil => exact absurd rfl hids
    | cons id rest =>
      rw [normalize_ref_cons, if_neg]
      simpa using hop
  | null => rfl
  | and hlen hproper hflat hsorted ih => rw [normalize_and hlen hproper hflat ih, sort_of_sorted hsorted]
  | or hlen hproper hflat hsorted ih => rw [normalize_or hlen hproper hflat ih, sort_of_sorted hsorted]
  | not hproper hopposite ih => rw [normalize, ih, hproper.negate hopposite]
  | nestedTruthy =>
    rw [normalize, normalize_truthy]
    rfl
  | nested hproper ih =>
    rw [normalize, ih]
    split
    · cases hproper
    · rfl

theorem normalize_of_isNormal (h : ranking.IsNormal filter) : ranking.normalize filter = filter := by
  rcases h with rfl | rfl | h
  · rfl
  · exact normalize_truthy ranking
  · exact normalize_of_isProper h

end Ranking

/-! ### Normal forms by cost -/

namespace Filter

variable {filter : Filter}

/-- The filter is in normal form by cost and neither `falsy` nor the empty conjunction. -/
abbrev IsProper (filter : Filter) : Prop := Ranking.byCost.IsProper filter

/-- The filter is in normal form by cost. -/
abbrev IsNormal (filter : Filter) : Prop := Ranking.byCost.IsNormal filter

theorem isNormal_normalize (filter : Filter) : filter.normalize.IsNormal := by
  rw [← Ranking.normalize_byCost]
  exact Ranking.byCost.isNormal_normalize filter

theorem normalize_of_isProper (h : filter.IsProper) : filter.normalize = filter := by
  rw [← Ranking.normalize_byCost]
  exact Ranking.normalize_of_isProper h

theorem normalize_of_isNormal (h : filter.IsNormal) : filter.normalize = filter := by
  rw [← Ranking.normalize_byCost]
  exact Ranking.normalize_of_isNormal h

/-- Every filter has a normal form, which is its own normal form, and the filters that are their own normal forms are
those in normal form. -/
theorem isNormal_normalize_and_normalize_eq_iff (filter : Filter) :
    filter.normalize.IsNormal ∧ filter.normalize.normalize = filter.normalize ∧
      (filter.normalize = filter ↔ filter.IsNormal) := by
  have hnormal := isNormal_normalize filter
  refine ⟨hnormal, normalize_of_isNormal hnormal, fun h => ?_, normalize_of_isNormal⟩
  rw [← h]
  exact hnormal

/-- A proper filter costs at least as much as an equality. -/
theorem atLeastOne_cost_of_isProper (h : filter.IsProper) : filter.cost.AtLeastOne := by
  have hsum : ∀ {children : List Filter}, 2 ≤ children.length → (∀ f ∈ children, f.cost.AtLeastOne) →
      (Cost.sum (childCosts children)).AtLeastOne := by
    intro children hlen hchildren
    cases children with
    | nil => simp at hlen
    | cons f rest => exact .sum List.mem_cons_self (hchildren f List.mem_cons_self)
  induction h with
  | scalar => exact ScalarOp.atLeastOne_cost _
  | list => exact (ListOp.atLeastOne_costBase _).power _
  | ref => exact (ListOp.atLeastOne_pointerCostBase _).power _
  | null => exact Cost.atLeastOne_tenths (by decide)
  | and hlen _ _ _ ih => exact hsum hlen ih
  | or hlen _ _ _ ih => exact hsum hlen ih
  | not _ _ ih => exact ih.add_left _
  | nestedTruthy => exact (Cost.atLeastOne_tenths (by decide)).add_left _
  | nested _ _ => exact (Cost.atLeastOne_tenths (by decide)).add_left _

end Filter

end ThingQuery
