import ThingQuery.Plan.Access
import ThingQuery.Proofs.Leading

/-!
# Properties of filters that rewriting keeps

Normal forms and leading predicates only regroup comparisons and change their operators and values.  So they keep every
property that depends on the compared columns alone (`Columnwise.normalize`, `Columnwise.reorder`).  A property may
speak about a scope, such as the thing whose records are filtered, which changes along relationships.
-/

namespace ThingQuery

namespace Filter

/-- A property of filters in a scope that depends only on the columns that are compared. -/
structure Columnwise {ι : Type} (P : ι → Filter → Prop) : Prop where
  /-- It holds of the filter without columns. -/
  falsy : ∀ i, P i .falsy
  /-- It holds of a conjunction when it holds of all parts. -/
  and_iff : ∀ {i children}, P i (.and children) ↔ ∀ f ∈ children, P i f
  /-- It holds of a disjunction when it holds of all parts. -/
  or_iff : ∀ {i children}, P i (.or children) ↔ ∀ f ∈ children, P i f
  /-- It holds of a negation when it holds of what is negated. -/
  not_iff : ∀ {i child}, P i (.not child) ↔ P i child
  /-- It does not depend on how a column is compared with a value. -/
  scalar : ∀ {i op op' left v v'}, P i (.scalar op left v) → P i (.scalar op' left v')
  /-- It does not depend on whether a column is compared with a value or with a list. -/
  list : ∀ {i op op' left values v}, P i (.list op left values) → P i (.scalar op' left v)
  /-- It does not depend on how pointers are compared with keys. -/
  ref : ∀ {i op op' left ids ids' tables tunnel}, P i (.ref op left ids tables tunnel) →
    P i (.ref op' left ids' tables tunnel)
  /-- In a condition on related records it depends on their scope. -/
  nested : ∀ {i path cardinality tunnel inner inner'}, P i (.nested path cardinality tunnel inner) →
    (∀ j, P j inner → P j inner') → P i (.nested path cardinality tunnel inner')

namespace Columnwise

variable {ι : Type} {P : ι → Filter → Prop} (hP : Columnwise P) {i : ι}

include hP

theorem truthy : P i truthy := hP.and_iff.2 (by simp)

theorem all_iff {filters : List Filter} : P i (all filters) ↔ ∀ f ∈ filters, P i f := by
  unfold Filter.all
  split
  · simp
  · exact hP.and_iff

theorem any_iff {filters : List Filter} : P i (any filters) ↔ ∀ f ∈ filters, P i f := by
  unfold Filter.any
  split
  · simp
  · exact hP.or_iff

theorem conjuncts {filter f : Filter} (h : P i filter) (hf : f ∈ filter.conjuncts) : P i f := by
  unfold Filter.conjuncts at hf
  split at hf
  · exact hP.and_iff.1 h f hf
  · exact List.mem_singleton.1 hf ▸ h

theorem disjuncts {filter f : Filter} (h : P i filter) (hf : f ∈ filter.disjuncts) : P i f := by
  unfold Filter.disjuncts at hf
  split at hf
  · cases hf
  · exact hP.or_iff.1 h f hf
  · exact List.mem_singleton.1 hf ▸ h

/-! ### Normal forms -/

theorem negate {filter : Filter} (h : P i filter) : P i filter.negate := by
  unfold Filter.negate
  split
  · exact hP.truthy
  · exact hP.falsy i
  · exact hP.not_iff.1 h
  · exact hP.scalar h
  · exact hP.scalar h
  · exact hP.not_iff.2 h

theorem conjoin {filters : List Filter} (h : ∀ f ∈ filters, P i f) : P i (conjoin filters) := by
  unfold Filter.conjoin
  split
  · exact hP.falsy i
  · refine hP.all_iff.2 fun g hg => ?_
    obtain ⟨f, hf, hgf⟩ := List.mem_flatMap.1 (List.mem_mergeSort.1 hg)
    exact hP.conjuncts (h f hf) hgf

theorem disjoin {filters : List Filter} (h : ∀ f ∈ filters, P i f) : P i (disjoin filters) := by
  unfold Filter.disjoin
  split
  · exact hP.truthy
  · dsimp only
    split
    · exact hP.falsy i
    · refine hP.any_iff.2 fun g hg => ?_
      obtain ⟨f, hf, hgf⟩ := List.mem_flatMap.1 (List.mem_mergeSort.1 hg)
      exact hP.disjuncts (h f hf) hgf

theorem ofEmptyList (op : ListOp) : P i (ofEmptyList op) := by
  unfold Filter.ofEmptyList
  split
  · exact hP.falsy i
  · exact hP.truthy

omit hP

mutual

theorem normalize (hP : Columnwise P) (filter : Filter) : ∀ i, P i filter → P i filter.normalize := by
  intro i h
  match filter with
  | .list op left [] =>
    rw [Filter.normalize]
    exact hP.ofEmptyList op
  | .list op left [v] =>
    rw [Filter.normalize]
    exact hP.list h
  | .ref op left [] tables tunnel =>
    rw [Filter.normalize]
    exact hP.ofEmptyList op
  | .ref op left (id :: rest) tables tunnel =>
    rw [normalize_ref_cons]
    exact hP.ref h
  | .not child =>
    rw [Filter.normalize]
    exact hP.negate (normalize hP child i (hP.not_iff.1 h))
  | .and children =>
    rw [Filter.normalize, normalizeAll_eq_map]
    exact hP.conjoin (List.forall_mem_map.2 (normalizeAll hP children i (hP.and_iff.1 h)))
  | .or children =>
    rw [Filter.normalize, normalizeAll_eq_map]
    exact hP.disjoin (List.forall_mem_map.2 (normalizeAll hP children i (hP.or_iff.1 h)))
  | .nested path cardinality tunnel inner =>
    have ih := normalize hP inner
    rw [Filter.normalize]
    split
    · exact hP.falsy i
    · exact hP.nested h ih
  | .list op left (v :: w :: rest) => exact h
  | .scalar op left right => exact h
  | .null op left tunnel => exact h
  | .falsy => exact h

theorem normalizeAll (hP : Columnwise P) (filters : List Filter) :
    ∀ i, (∀ f ∈ filters, P i f) → ∀ f ∈ filters, P i f.normalize := by
  intro i h
  match filters with
  | [] => simp
  | f :: rest =>
    rw [List.forall_mem_cons] at h ⊢
    exact ⟨normalize hP f i h.1, normalizeAll hP rest i h.2⟩

end

include hP

/-! ### Leading predicates -/

theorem equalities {left : String} {values : List Json} (h : P i (.list .isIn left values)) :
    ∀ f ∈ values.map (Filter.scalar .eq left), P i f :=
  List.forall_mem_map.2 fun _ _ => hP.list h

theorem spread {filter f : Filter} (h : P i filter) (hf : f ∈ filter.spread) : P i f := by
  unfold Filter.spread at hf
  split at hf
  · split at hf
    · exact List.mem_singleton.1 hf ▸ h
    · exact hP.equalities h f hf
  · exact List.mem_singleton.1 hf ▸ h

theorem spreadOr {filter : Filter} (h : P i filter) : P i filter.spreadOr := by
  unfold Filter.spreadOr
  split
  · split
    · exact h
    · exact hP.or_iff.2 (hP.equalities h)
  · exact h

theorem leadConjuncts {thing : Thing} {filters : List Filter} (h : ∀ f ∈ filters, P i f) :
    ∀ f ∈ leadConjuncts thing filters, P i f := by
  rcases leadConjuncts_cases thing filters with ⟨before, found, after, _, rfl, _, _, hled⟩ | ⟨_, hled⟩ | ⟨_, _, hled⟩
  · rw [List.forall_mem_append, List.forall_mem_cons] at h
    rw [hled, List.forall_mem_cons, List.forall_mem_append]
    exact ⟨hP.spreadOr h.2.1, h.1, h.2.2⟩
  · obtain ⟨_, group, rest, hg, he, _⟩ := exists_of_leadByComposite? hled
    intro f hf
    rw [he] at hf
    exact h f ((perm_of_extractEqualities? hg).mem_iff.2 hf)
  · rwa [hled]

theorem leadDisjuncts {thing : Thing} {filters : List Filter} (h : ∀ f ∈ filters, P i f) :
    ∀ f ∈ leadDisjuncts thing filters, P i f := by
  rcases leadDisjuncts_cases thing filters with ⟨before, found, after, _, rfl, _, hled⟩ | hled
  · rw [List.forall_mem_append, List.forall_mem_cons] at h
    rw [hled, List.forall_mem_append, List.forall_mem_append]
    exact ⟨fun f hf => hP.spread h.2.1 hf, h.1, h.2.2⟩
  · rwa [hled]

theorem reorder (thing : Thing) {filter : Filter} (h : P i filter) : P i (filter.reorder thing) := by
  unfold Filter.reorder
  split
  · exact hP.and_iff.2 (hP.leadConjuncts (hP.and_iff.1 h))
  · exact hP.or_iff.2 (hP.leadDisjuncts (hP.or_iff.1 h))
  · exact h

theorem reorderFor (schema : Schema) (thing : String) {filter : Filter} (h : P i filter) :
    P i (filter.reorderFor schema thing) := by
  unfold Filter.reorderFor
  split
  · exact hP.reorder _ h
  · exact h

theorem tidy? {schema : Schema} {thing : String} {filter tidy : Filter} (h : P i filter)
    (ht : filter.tidy? schema thing = some tidy) : P i tidy := by
  unfold Filter.tidy? at ht
  dsimp only at ht
  split at ht
  · cases ht
  · cases ht
    exact hP.reorderFor schema thing (hP.normalize filter i h)

end Columnwise

end Filter

end ThingQuery
