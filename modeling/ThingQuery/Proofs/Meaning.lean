import Mathlib.Data.List.Basic
import ThingQuery.Filter.Normal
import ThingQuery.Proofs.Leading
import ThingQuery.Store.Satisfies

/-!
# Rewriting keeps the meaning of filters

Bringing a filter into normal form (`satisfies_normalize`) and its leading predicate to the front
(`satisfies_reorder`) does not change which records satisfy it, on any store.
-/

namespace ThingQuery

theorem ListOp.test_singleton (op : ListOp) (actual : Option Json) (v : Json) :
    op.test actual [v] = op.scalar.test actual v := by
  cases op <;> simp [ListOp.test, ListOp.scalar, ScalarOp.test]

namespace Store

variable (store : Store) (record : Json)

/-! ### Connectives -/

theorem satisfiesAll_eq_true_iff {filters : List Filter} :
    store.satisfiesAll filters record = true ↔ ∀ f ∈ filters, store.satisfies f record = true := by
  induction filters with
  | nil => simp [satisfiesAll]
  | cons f fs ih => simp [satisfiesAll, ih]

theorem satisfiesAny_eq_true_iff {filters : List Filter} :
    store.satisfiesAny filters record = true ↔ ∃ f ∈ filters, store.satisfies f record = true := by
  induction filters with
  | nil => simp [satisfiesAny]
  | cons f fs ih => simp [satisfiesAny, ih]

theorem satisfies_and_iff {filters : List Filter} :
    store.satisfies (.and filters) record = true ↔ ∀ f ∈ filters, store.satisfies f record = true := by
  rw [satisfies, satisfiesAll_eq_true_iff]

theorem satisfies_or_iff {filters : List Filter} :
    store.satisfies (.or filters) record = true ↔ ∃ f ∈ filters, store.satisfies f record = true := by
  rw [satisfies, satisfiesAny_eq_true_iff]

theorem satisfies_all_iff {filters : List Filter} :
    store.satisfies (Filter.all filters) record = true ↔ ∀ f ∈ filters, store.satisfies f record = true := by
  unfold Filter.all
  split
  · simp
  · exact satisfies_and_iff store record

theorem satisfies_any_iff {filters : List Filter} :
    store.satisfies (Filter.any filters) record = true ↔ ∃ f ∈ filters, store.satisfies f record = true := by
  unfold Filter.any
  split
  · simp
  · exact satisfies_or_iff store record

/-- A record satisfies a filter iff it satisfies all parts of its outermost conjunction. -/
theorem satisfies_iff_conjuncts {filter : Filter} :
    store.satisfies filter record = true ↔ ∀ f ∈ filter.conjuncts, store.satisfies f record = true := by
  unfold Filter.conjuncts
  split
  · exact satisfies_and_iff store record
  · simp

theorem satisfies_iff_disjuncts {filter : Filter} :
    store.satisfies filter record = true ↔ ∃ f ∈ filter.disjuncts, store.satisfies f record = true := by
  unfold Filter.disjuncts
  split
  · simp [satisfies]
  · exact satisfies_or_iff store record
  · simp

theorem satisfies_of_isTruthy {filter : Filter} (h : filter.isTruthy = true) :
    store.satisfies filter record = true := by
  unfold Filter.isTruthy at h
  split at h
  · simp [satisfies, satisfiesAll]
  · cases h

theorem satisfies_eq_false_of_isFalsy {filter : Filter} (h : filter.isFalsy = true) :
    store.satisfies filter record = false := by
  unfold Filter.isFalsy at h
  split at h
  · rfl
  · cases h

/-! ### Normal forms -/

theorem satisfies_negate (filter : Filter) :
    store.satisfies filter.negate record = !store.satisfies filter record := by
  unfold Filter.negate
  split
  · simp [Filter.truthy, satisfies, satisfiesAll]
  · simp [satisfies, satisfiesAll]
  · simp [satisfies]
  · simp [satisfies, ScalarOp.test]
  · simp [satisfies, ScalarOp.test]
  · simp [satisfies]

theorem satisfies_conjoin_iff {filters : List Filter} :
    store.satisfies (Filter.conjoin filters) record = true ↔ ∀ f ∈ filters, store.satisfies f record = true := by
  unfold Filter.conjoin
  split
  · rename_i hfalsy
    obtain ⟨f, hf, hff⟩ := List.any_eq_true.1 hfalsy
    have hno := satisfies_eq_false_of_isFalsy store record hff
    constructor
    · intro h
      cases h
    · intro h
      rw [h f hf] at hno
      cases hno
  · rw [satisfies_all_iff]
    simp only [Filter.sortByCost, List.mem_mergeSort, List.mem_flatMap]
    constructor
    · intro h f hf
      exact (satisfies_iff_conjuncts store record).2 fun g hg => h g ⟨f, hf, hg⟩
    · rintro h g ⟨f, hf, hg⟩
      exact (satisfies_iff_conjuncts store record).1 (h f hf) g hg

theorem satisfies_disjoin_iff {filters : List Filter} :
    store.satisfies (Filter.disjoin filters) record = true ↔ ∃ f ∈ filters, store.satisfies f record = true := by
  have hparts : (∃ g ∈ filters.flatMap Filter.disjuncts, store.satisfies g record = true) ↔
      ∃ f ∈ filters, store.satisfies f record = true := by
    simp only [List.mem_flatMap]
    constructor
    · rintro ⟨g, ⟨f, hf, hg⟩, hs⟩
      exact ⟨f, hf, (satisfies_iff_disjuncts store record).2 ⟨g, hg, hs⟩⟩
    · rintro ⟨f, hf, hs⟩
      obtain ⟨g, hg, hs⟩ := (satisfies_iff_disjuncts store record).1 hs
      exact ⟨g, ⟨f, hf, hg⟩, hs⟩
  unfold Filter.disjoin
  split
  · rename_i htruthy
    obtain ⟨f, hf, hff⟩ := List.any_eq_true.1 htruthy
    have hyes := satisfies_of_isTruthy store record hff
    have htrue : store.satisfies Filter.truthy record = true := satisfies_of_isTruthy store record rfl
    exact ⟨fun _ => ⟨f, hf, hyes⟩, fun _ => htrue⟩
  · rw [← hparts]
    dsimp only
    split
    · rename_i hempty
      simp [List.isEmpty_iff.1 hempty, satisfies]
    · rw [satisfies_any_iff]
      simp only [Filter.sortByCost, List.mem_mergeSort]

theorem satisfies_ofEmptyList (op : ListOp) (left : String) :
    store.satisfies (Filter.ofEmptyList op) record = store.satisfies (.list op left []) record := by
  cases op <;> rfl

mutual

/-- The normal form of a filter holds of the same records. -/
theorem satisfies_normalize (filter : Filter) :
    ∀ record, store.satisfies filter.normalize record = store.satisfies filter record := by
  intro record
  match filter with
  | .list op left [] =>
    rw [Filter.normalize, satisfies_ofEmptyList]
  | .list op left [v] =>
    rw [Filter.normalize, satisfies, satisfies, ListOp.test_singleton]
  | .ref op left [] tables tunnel =>
    rw [Filter.normalize]
    cases op <;> rfl
  | .ref op left (id :: rest) tables tunnel =>
    rw [Filter.normalize_ref_cons]
    split
    · rename_i h
      obtain ⟨rfl, rfl⟩ := h
      simp [satisfies, ListOp.testKeys]
    · rfl
  | .not child =>
    rw [Filter.normalize, satisfies_negate, satisfies_normalize child, satisfies]
  | .and children =>
    have ih := satisfies_normalizeAll children record
    rw [Filter.normalize, Filter.normalizeAll_eq_map, Bool.eq_iff_iff, satisfies_conjoin_iff, satisfies_and_iff,
      List.forall_mem_map]
    exact forall_congr' fun f => forall_congr' fun hf => by rw [ih f hf]
  | .or children =>
    have ih := satisfies_normalizeAll children record
    rw [Filter.normalize, Filter.normalizeAll_eq_map, Bool.eq_iff_iff, satisfies_disjoin_iff, satisfies_or_iff]
    simp only [List.mem_map, exists_exists_and_eq_and]
    exact exists_congr fun f => and_congr_right fun hf => by rw [ih f hf]
  | .nested path cardinality tunnel inner =>
    have ih := satisfies_normalize inner
    rw [Filter.normalize]
    split
    · rename_i hfalsy
      rw [hfalsy] at ih
      -- no related record satisfies the inner filter
      have hno : ∀ row : Row, store.satisfies inner row.record = false := fun row => (ih row.record).symm
      simp [satisfies, hno]
    · simp [satisfies, ih]
  | .list op left (v :: w :: rest) => rfl
  | .scalar op left right => rfl
  | .null op left tunnel => rfl
  | .falsy => rfl

theorem satisfies_normalizeAll (filters : List Filter) :
    ∀ record, ∀ f ∈ filters, store.satisfies f.normalize record = store.satisfies f record := by
  intro record
  match filters with
  | [] => simp
  | f :: rest =>
    rw [List.forall_mem_cons]
    exact ⟨satisfies_normalize f record, satisfies_normalizeAll rest record⟩

end

/-! ### Leading predicates -/

theorem satisfies_equalities_iff {left : String} {values : List Json} :
    (∃ f ∈ values.map (Filter.scalar .eq left), store.satisfies f record = true) ↔
      store.satisfies (.list .isIn left values) record = true := by
  simp [satisfies, ListOp.test, ScalarOp.test]

theorem satisfies_spreadOr (filter : Filter) :
    store.satisfies filter.spreadOr record = store.satisfies filter record := by
  unfold Filter.spreadOr
  split
  · split
    · rfl
    · rw [Bool.eq_iff_iff, satisfies_or_iff, satisfies_equalities_iff]
  · rfl

theorem satisfies_spread_iff {filter : Filter} :
    (∃ f ∈ filter.spread, store.satisfies f record = true) ↔ store.satisfies filter record = true := by
  unfold Filter.spread
  split
  · split
    · simp
    · exact satisfies_equalities_iff store record
  · simp

theorem satisfies_leadConjuncts_iff {thing : Thing} {filters : List Filter} :
    (∀ f ∈ Filter.leadConjuncts thing filters, store.satisfies f record = true) ↔
      ∀ f ∈ filters, store.satisfies f record = true := by
  rcases Filter.leadConjuncts_cases thing filters with
    ⟨before, found, after, _, rfl, _, _, hled⟩ | ⟨_, hled⟩ | ⟨_, _, hled⟩
  · rw [hled, List.forall_mem_cons, satisfies_spreadOr, List.forall_mem_append, List.forall_mem_append,
      List.forall_mem_cons]
    exact and_left_comm
  · obtain ⟨_, group, rest, hg, he, _⟩ := Filter.exists_of_leadByComposite? hled
    rw [he]
    exact forall_congr' fun f => by rw [(Filter.perm_of_extractEqualities? hg).mem_iff]
  · rw [hled]

theorem satisfies_leadDisjuncts_iff {thing : Thing} {filters : List Filter} :
    (∃ f ∈ Filter.leadDisjuncts thing filters, store.satisfies f record = true) ↔
      ∃ f ∈ filters, store.satisfies f record = true := by
  rcases Filter.leadDisjuncts_cases thing filters with ⟨before, found, after, _, rfl, _, hled⟩ | hled
  · rw [hled]
    simp only [List.mem_append, List.mem_cons, or_and_right, exists_or, exists_eq_left, satisfies_spread_iff]
    exact or_left_comm
  · rw [hled]

/-- A filter with its leading predicate in front holds of the same records. -/
theorem satisfies_reorder (thing : Thing) (filter : Filter) :
    store.satisfies (filter.reorder thing) record = store.satisfies filter record := by
  unfold Filter.reorder
  split
  · rw [Bool.eq_iff_iff, satisfies_and_iff, satisfies_and_iff, satisfies_leadConjuncts_iff]
  · rw [Bool.eq_iff_iff, satisfies_or_iff, satisfies_or_iff, satisfies_leadDisjuncts_iff]
  · rfl

/-- Neither the normal form of a filter nor its reordering for a thing changes which records satisfy the filter. -/
theorem satisfies_rewritten (thing : Thing) (filter : Filter) :
    store.satisfies filter.normalize record = store.satisfies filter record ∧
      store.satisfies (filter.normalize.reorder thing) record = store.satisfies filter record := by
  have hnormal : store.satisfies filter.normalize record = store.satisfies filter record :=
    satisfies_normalize store filter record
  exact ⟨hnormal, (satisfies_reorder store record thing filter.normalize).trans hnormal⟩

end Store

end ThingQuery
