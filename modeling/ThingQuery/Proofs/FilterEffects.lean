import Mathlib.Algebra.BigOperators.Group.List.Basic
import Mathlib.Algebra.Order.Group.Multiset
import Mathlib.Algebra.Order.Monoid.Unbundled.WithTop
import ThingQuery.Plan.Build
import ThingQuery.Proofs.Meaning

/-!
# Effects of filters

A plan uses its filter in three ways: it keeps the records that satisfy the filter, drops a filter that is the empty
conjunction, and returns one row when the filter fixes a unique column.  The effect of a filter (`Filter.effect`) is all
of this.  The effects of connectives do not depend on the order of their parts (`Filter.effect_all`,
`Filter.effect_any`).  So the parts that a value describes are compared by the multiset of their effects, or `⊤` when
the value is refused (`Filter.total`): what the members of an object and the items of a list describe then adds up.
-/

namespace ThingQuery

namespace Filter

/-- What a plan uses its filter for. -/
@[ext]
structure Effect where
  satisfied : Store → Json → Bool
  /-- Whether the filter is dropped as the empty conjunction. -/
  isTruthy : Bool
  /-- Whether the filter itself fixes a unique column. -/
  pins : Thing → Bool
  /-- Whether some part of the outermost conjunction fixes a unique column. -/
  pinsUnique : Thing → Bool

namespace Effect

/-- The effect of a conjunction. -/
def conjunction (parts : List Effect) : Effect where
  satisfied store record := parts.all (·.satisfied store record)
  isTruthy := parts.isEmpty
  pins _ := false
  pinsUnique thing := parts.any (·.pins thing)

/-- The effect of a disjunction. -/
def disjunction (parts : List Effect) : Effect where
  satisfied store record := parts.any (·.satisfied store record)
  isTruthy := false
  pins _ := false
  pinsUnique _ := false

/-- The effect of a connective, where one part stands for itself. -/
def combine (connective : List Effect → Effect) : List Effect → Effect
  | [part] => part
  | parts => connective parts

theorem conjunction_perm {parts parts' : List Effect} (h : parts.Perm parts') :
    conjunction parts = conjunction parts' := by
  unfold conjunction
  simp only [h.isEmpty_eq, h.all_eq, h.any_eq]

theorem disjunction_perm {parts parts' : List Effect} (h : parts.Perm parts') :
    disjunction parts = disjunction parts' := by
  unfold disjunction
  simp only [h.any_eq]

theorem combine_perm {connective : List Effect → Effect}
    (hperm : ∀ {parts parts' : List Effect}, parts.Perm parts' → connective parts = connective parts')
    {parts parts' : List Effect} (h : parts.Perm parts') : combine connective parts = combine connective parts' := by
  match parts, parts', h.length_eq with
  | [], [], _ => rfl
  | [part], [part'], _ => exact List.singleton_perm_singleton.1 h
  | _ :: _ :: _, _ :: _ :: _, _ => exact hperm h

end Effect

/-- The effect of a filter. -/
def effect (filter : Filter) : Effect where
  satisfied store record := store.satisfies filter record
  isTruthy := filter.isTruthy
  pins thing := filter.pins thing
  pinsUnique thing := filter.pinsUnique thing

theorem effect_and (filters : List Filter) : (Filter.and filters).effect = .conjunction (filters.map effect) := by
  ext
  · rename_i store record
    rw [Bool.eq_iff_iff]
    exact (store.satisfies_and_iff record).trans (by simp [Effect.conjunction, effect])
  · cases filters <;> rfl
  · rfl
  · simp [Effect.conjunction, effect, pinsUnique, conjuncts, Function.comp_def]

theorem effect_or (filters : List Filter) : (Filter.or filters).effect = .disjunction (filters.map effect) := by
  ext
  · rename_i store record
    rw [Bool.eq_iff_iff]
    exact (store.satisfies_or_iff record).trans (by simp [Effect.disjunction, effect])
  all_goals rfl

theorem effect_all (filters : List Filter) : (all filters).effect = .combine .conjunction (filters.map effect) := by
  match filters with
  | [] => exact effect_and []
  | [_] => rfl
  | _ :: _ :: _ => exact effect_and _

theorem effect_any (filters : List Filter) : (any filters).effect = .combine .disjunction (filters.map effect) := by
  match filters with
  | [] => exact effect_or []
  | [_] => rfl
  | _ :: _ :: _ => exact effect_or _

section Congruence

variable {filters filters' : List Filter} {filter filter' : Filter}

theorem effect_all_congr (h : (filters.map effect).Perm (filters'.map effect)) :
    (all filters).effect = (all filters').effect := by
  rw [effect_all, effect_all, Effect.combine_perm Effect.conjunction_perm h]

theorem effect_any_congr (h : (filters.map effect).Perm (filters'.map effect)) :
    (any filters).effect = (any filters').effect := by
  rw [effect_any, effect_any, Effect.combine_perm Effect.disjunction_perm h]

theorem satisfies_of_effect (h : filter.effect = filter'.effect) (store : Store) (record : Json) :
    store.satisfies filter record = store.satisfies filter' record :=
  congrFun (congrFun (congrArg Effect.satisfied h) store) record

theorem effect_not_congr (h : filter.effect = filter'.effect) :
    (Filter.not filter).effect = (Filter.not filter').effect := by
  ext
  · rename_i store record
    change store.satisfies (.not filter) record = store.satisfies (.not filter') record
    rw [Store.satisfies, Store.satisfies, satisfies_of_effect h]
  all_goals rfl

theorem effect_nested_congr (path : String) (cardinality : Cardinality) (tunnel : Option String)
    (h : filter.effect = filter'.effect) :
    (Filter.nested path cardinality tunnel filter).effect = (Filter.nested path cardinality tunnel filter').effect := by
  ext
  · rename_i store record
    change store.satisfies (.nested path cardinality tunnel filter) record =
      store.satisfies (.nested path cardinality tunnel filter') record
    simp only [Store.satisfies, satisfies_of_effect h]
  all_goals rfl

theorem effect_list_perm (op : ListOp) (left : String) {values values' : List Json} (h : values.Perm values') :
    (Filter.list op left values).effect = (Filter.list op left values').effect := by
  have hpins : ∀ thing, (Filter.list op left values).pins thing = (Filter.list op left values').pins thing := by
    intro thing
    cases op <;> simp only [pins, h.length_eq]
  ext
  · change op.test _ values = op.test _ values'
    cases op <;> simp only [ListOp.test, h.any_eq, h.all_eq]
  · rfl
  · exact hpins _
  · simp only [effect, pinsUnique, conjuncts, List.any_cons, hpins]

theorem effect_ref_perm (op : ListOp) (left : String) {ids ids' : List String} (tables : Option (List String))
    (tunnel : Option String) (h : ids.Perm ids') :
    (Filter.ref op left ids tables tunnel).effect = (Filter.ref op left ids' tables tunnel).effect := by
  ext
  · change op.testKeys _ ids = op.testKeys _ ids'
    cases op <;> simp only [ListOp.testKeys, h.any_eq, h.all_eq]
  all_goals rfl

end Congruence

/-! ### Totals -/

/-- The effects of the filters that a value describes, in no order, or `⊤` if it is refused. -/
def total : Except PlanError (List Filter) → WithTop (Multiset Effect)
  | .ok filters => ((filters.map effect : List Effect) : Multiset Effect)
  | .error _ => ⊤

/-- The effect of the filter that a value describes, or `⊤` if it is refused. -/
def single (x : Except PlanError Filter) : WithTop (Multiset Effect) := total (x.map fun filter => [filter])

theorem total_eq_iff {x y : Except PlanError (List Filter)} :
    total x = total y ↔ (∃ e e', x = .error e ∧ y = .error e') ∨
      ∃ filters filters', x = .ok filters ∧ y = .ok filters' ∧ (filters.map effect).Perm (filters'.map effect) := by
  cases x <;> cases y <;> simp [total, Multiset.coe_eq_coe]

theorem single_eq_iff {x y : Except PlanError Filter} :
    single x = single y ↔ (∃ e e', x = .error e ∧ y = .error e') ∨
      ∃ filter filter', x = .ok filter ∧ y = .ok filter' ∧ filter.effect = filter'.effect := by
  rw [single, single, total_eq_iff]
  cases x <;> cases y <;> simp [Except.map]

/-- A filter that is made of parts in no order is compared by the total of the parts. -/
theorem single_map_congr {make : List Filter → Filter}
    (hmake : ∀ {filters filters' : List Filter}, (filters.map effect).Perm (filters'.map effect) →
      (make filters).effect = (make filters').effect)
    {x y : Except PlanError (List Filter)} (h : total x = total y) : single (x.map make) = single (y.map make) := by
  rcases total_eq_iff.1 h with ⟨e, e', rfl, rfl⟩ | ⟨filters, filters', rfl, rfl, hperm⟩
  · rfl
  · exact single_eq_iff.2 (.inr ⟨_, _, rfl, rfl, hmake hperm⟩)

theorem total_append (x y : Except PlanError (List Filter)) :
    total (do
      let before ← x
      let after ← y
      pure (before ++ after)) = total x + total y := by
  cases x with
  | error e =>
    change ⊤ = ⊤ + total y
    rw [WithTop.top_add]
  | ok before =>
    cases y with
    | error e =>
      change ⊤ = total (.ok before) + ⊤
      rw [WithTop.add_top]
    | ok after =>
      change ((((before ++ after).map effect : List Effect) : Multiset Effect) : WithTop (Multiset Effect)) = _
      rw [List.map_append, ← Multiset.coe_add, WithTop.coe_add]
      rfl

theorem total_cons (x : Except PlanError Filter) (y : Except PlanError (List Filter)) :
    total (do
      let first ← x
      let rest ← y
      pure (first :: rest)) = single x + total y := by
  rw [single, ← total_append]
  cases x <;> rfl

theorem total_mapM {α : Type} (f : α → Except PlanError Filter) (as : List α) :
    total (as.mapM f) = (as.map fun a => single (f a)).sum := by
  induction as with
  | nil => rfl
  | cons a as ih => rw [List.mapM_cons, total_cons, ih, List.map_cons, List.sum_cons]

/-- Some items give no filter. -/
theorem total_filterMap {α : Type} (f : α → Except PlanError (Option Filter)) (as : List α) :
    total ((as.mapM f).map (List.filterMap id)) = (as.map fun a => total ((f a).map Option.toList)).sum := by
  induction as with
  | nil => rfl
  | cons a as ih =>
    rw [List.map_cons, List.sum_cons, ← ih, ← total_append, List.mapM_cons]
    cases f a with
    | error e => rfl
    | ok found =>
      cases as.mapM f with
      | error e => rfl
      | ok others => cases found <;> rfl

theorem total_ofItems (schema : Schema) (thing : Thing) (items : List Json) :
    total (ofItems schema thing items) = (items.map fun item => single (ofJson schema thing item)).sum := by
  induction items with
  | nil =>
    rw [ofItems]
    rfl
  | cons item rest ih => rw [ofItems, total_cons, ih, List.map_cons, List.sum_cons]

theorem total_ofMembers (schema : Schema) (thing : Thing) (members : List (String × Json)) :
    total (ofMembers schema thing members) =
      (members.map fun member => single (ofMember schema thing member.1 member.2)).sum := by
  induction members with
  | nil =>
    rw [ofMembers]
    rfl
  | cons member rest ih => rw [ofMembers, total_cons, ih, List.map_cons, List.sum_cons]

/-- What a member of an object says about the thing at the other end of a relationship. -/
def leftover (schema : Schema) (thing : Thing) (member : String × Json) : WithTop (Multiset Effect) :=
  if Relationship.isOperator member.1 then 0 else single (ofMember schema thing member.1 member.2)

theorem total_ofLeftovers (schema : Schema) (thing : Thing) (members : List (String × Json)) :
    total (ofLeftovers schema thing members) = (members.map (leftover schema thing)).sum := by
  induction members with
  | nil =>
    rw [ofLeftovers]
    rfl
  | cons member rest ih =>
    rw [ofLeftovers, List.map_cons, List.sum_cons, leftover]
    split
    · rw [ih, zero_add]
    · rw [total_cons, ih]

theorem Relationship.operator_eq_none {key : String} (h : isOperator key = false) (rel : Relationship) (v : Json) :
    rel.operator key v = .ok none := by
  rw [isOperator, Bool.or_eq_false_iff, Bool.or_eq_false_iff, beq_eq_false_iff_ne, Option.isSome_eq_false_iff,
    Option.isSome_eq_false_iff, Option.isNone_iff_eq_none, Option.isNone_iff_eq_none] at h
  unfold Relationship.operator
  rw [if_neg h.1.1, h.1.2, h.2]

theorem Relationship.total_operators (rel : Relationship) (members : List (String × Json)) :
    total (rel.operators members) =
      (members.map fun member => total ((rel.operator member.1 member.2).map Option.toList)).sum :=
  total_filterMap (fun member : String × Json => rel.operator member.1 member.2) members

end Filter

end ThingQuery
