import ThingQuery.Proofs.Accepted
import ThingQuery.Schema.Validate

/-!
# One row or a list

A plan returns one row when its query asks for a single key, or when a part of the outermost conjunction of its filter
fixes the value of a unique column (`Plan.cardinality_eq_one_iff`).  A conjunction among these parts is not taken apart.
So one condition may have two plans, of which one returns a row and the other a list: this happens exactly when all
parts that fix a unique column are buried in inner conjunctions (`Plan.cardinality_eq_one_iff_flat`).
-/

namespace ThingQuery

/-! ### What cardinality depends on -/

theorem Level.cardinality_eq_one_iff {schema : Schema} {thing : Thing} {options : Options} {columns : List Column}
    {level : Level} (h : Level.build schema thing options columns = .ok level) :
    level.cardinality = .one ↔
      (options.id.bind IdSelector.single?).isSome = true ∨ level.filter.any (Filter.pinsUnique thing) = true := by
  -- whatever the filter is built from, the last step of the level decides
  have hlast : ∃ filter page, level = ⟨options.id.map IdSelector.ids, filter, page, options.sort,
      if (options.id.bind IdSelector.single?).isSome || filter.any (Filter.pinsUnique thing) then .one
      else .many⟩ := by
    unfold Level.build at h
    cases hv : options.filter <;> rw [hv] at h
    all_goals
      obtain ⟨_, _, h⟩ := ok_of_bind h
      obtain ⟨page, _, h⟩ := ok_of_bind h
      obtain ⟨_, _, h⟩ := ok_of_bind h
      exact ⟨_, page, (Except.ok.inj h).symm⟩
  obtain ⟨filter, page, rfl⟩ := hlast
  dsimp only
  rw [← Bool.or_eq_true_iff]
  cases (options.id.bind IdSelector.single?).isSome || filter.any (Filter.pinsUnique thing) <;> simp

/-- A plan returns one row exactly when its query asks for a single key or a part of its filter fixes a unique
column. -/
theorem Plan.cardinality_eq_one_iff {schema : Schema} {metadata : Bool} {query : Query} {plan : Plan} {thing : Thing}
    (hbuild : Plan.build schema metadata query = .ok plan) (hthing : schema.thing? query.thing = some thing) :
    plan.cardinality = .one ↔
      (query.options.id.bind IdSelector.single?).isSome = true ∨
        ∃ f, plan.filter = some f ∧ ∃ c ∈ f.conjuncts, c.pins thing = true := by
  obtain ⟨found, columns, level, hfound, _, hlevel, rfl⟩ := Plan.build_eq_ok hbuild
  cases hthing.symm.trans hfound
  rw [Level.cardinality_eq_one_iff hlevel]
  simp only [Option.any_eq_true, Filter.pinsUnique, List.any_eq_true]

namespace Filter

/-! ### Conjunctions taken apart -/

mutual

/-- The parts of a conjunction, where the conjunctions among them are taken apart as well. -/
def flatConjuncts : Filter → List Filter
  | .and children => flatParts children
  | other => [other]

/-- The parts of a list of filters, where the conjunctions among them are taken apart. -/
def flatParts : List Filter → List Filter
  | [] => []
  | f :: rest => flatConjuncts f ++ flatParts rest

end

theorem mem_flatParts_iff {filters : List Filter} {c : Filter} :
    c ∈ flatParts filters ↔ ∃ f ∈ filters, c ∈ f.flatConjuncts := by
  induction filters with
  | nil => simp [flatParts]
  | cons f rest ih => simp [flatParts, ih]

/-- The parts of a filter are those of the parts of its outermost conjunction. -/
theorem mem_flatConjuncts_iff {filter c : Filter} :
    c ∈ filter.flatConjuncts ↔ ∃ f ∈ filter.conjuncts, c ∈ f.flatConjuncts := by
  cases filter with
  | and children =>
    rw [flatConjuncts, conjuncts]
    exact mem_flatParts_iff
  | _ => simp [flatConjuncts, conjuncts]

/-- A filter that is not a conjunction has no other part than itself. -/
theorem eq_or_isAnd_of_mem_flatConjuncts {filter c : Filter} (h : c ∈ filter.flatConjuncts) :
    c = filter ∨ ∃ children, filter = .and children := by
  cases filter with
  | and children => exact .inr ⟨children, rfl⟩
  | _ =>
    left
    simpa [flatConjuncts] using h

/-- A filter that fixes a unique column is not a conjunction, so it is its own part. -/
theorem mem_flatConjuncts_self_of_pins {thing : Thing} {filter : Filter} (h : filter.pins thing = true) :
    filter ∈ filter.flatConjuncts := by
  cases filter with
  | and children => simp [pins] at h
  | _ => simp [flatConjuncts]

/-- No part of the outermost conjunction fixes a unique column, but a part of a conjunction among them does. -/
structure BuriesPin (thing : Thing) (filter : Filter) : Prop where
  outermost : ∀ c ∈ filter.conjuncts, c.pins thing = false
  /-- There is an inner conjunction with a part that fixes a unique column. -/
  inner : ∃ children, .and children ∈ filter.conjuncts ∧
    ∃ c ∈ (Filter.and children).flatConjuncts, c.pins thing = true

/-- A part fixes a unique column exactly when one of the outermost conjunction does or such a part is buried. -/
theorem exists_pins_flat_iff {thing : Thing} {filter : Filter} :
    (∃ c ∈ filter.flatConjuncts, c.pins thing = true) ↔
      (∃ c ∈ filter.conjuncts, c.pins thing = true) ∨ filter.BuriesPin thing := by
  constructor
  · rintro ⟨c, hc, hpins⟩
    by_cases houter : ∃ c ∈ filter.conjuncts, c.pins thing = true
    · exact .inl houter
    · right
      have hnone : ∀ c ∈ filter.conjuncts, c.pins thing = false := by
        intro d hd
        exact Bool.eq_false_iff.2 fun h => houter ⟨d, hd, h⟩
      obtain ⟨f, hf, hcf⟩ := mem_flatConjuncts_iff.1 hc
      rcases eq_or_isAnd_of_mem_flatConjuncts hcf with rfl | ⟨children, rfl⟩
      · exact absurd ⟨c, hf, hpins⟩ houter
      · exact ⟨hnone, children, hf, c, hcf, hpins⟩
  · rintro (⟨c, hc, hpins⟩ | ⟨_, children, hchildren, c, hc, hpins⟩)
    · exact ⟨c, mem_flatConjuncts_iff.2 ⟨c, hc, mem_flatConjuncts_self_of_pins hpins⟩, hpins⟩
    · exact ⟨c, mem_flatConjuncts_iff.2 ⟨_, hchildren, hc⟩, hpins⟩

/-! ### Two ways to write a conjunction -/

theorem ofItems_map_singleton (schema : Schema) (thing : Thing) (members : List (String × Json)) :
    ofItems schema thing (members.map fun member => .object [member]) = ofMembers schema thing members := by
  induction members with
  | nil => rw [List.map_nil, ofItems, ofMembers]
  | cons member rest ih =>
    obtain ⟨key, v⟩ := member
    have hone : ofJson schema thing (.object [(key, v)]) = ofMember schema thing key v := by
      rw [ofJson, ofMembers, ofMembers]
      cases ofMember schema thing key v <;> rfl
    rw [List.map_cons, ofItems, ofMembers, hone, ih]

/-- The members of an object as the items of one conjunction. -/
def conjunctionOf (members : List (String × Json)) : Json :=
  .object [("$and", .array (members.map fun member => .object [member]))]

/-- An object and the conjunction of its members describe the same filter. -/
theorem ofJson_conjunctionOf (schema : Schema) (thing : Thing) (members : List (String × Json)) :
    ofJson schema thing (conjunctionOf members) = ofJson schema thing (.object members) := by
  have hsubject : subject schema thing "$and" = .ok .conjunction := rfl
  have hmember : ofMember schema thing "$and" (.array (members.map fun member => .object [member])) =
      (ofMembers schema thing members).map all := by
    rw [ofMember, hsubject, ← ofItems_map_singleton]
    rfl
  rw [conjunctionOf, ofJson, ofJson, ofMembers, ofMembers, hmember]
  cases ofMembers schema thing members <;> rfl

end Filter

/-- A level depends on its filter only through what that describes. -/
theorem Level.build_withFilter_congr {schema : Schema} {thing : Thing} {v w : Json}
    (h : Filter.ofJson schema thing v = Filter.ofJson schema thing w) (options : Options) (columns : List Column) :
    Level.build schema thing (options.withFilter v) columns =
      Level.build schema thing (options.withFilter w) columns := by
  unfold Level.build Options.withFilter
  dsimp only
  rw [h]

/-! ### One condition with two cardinalities -/

namespace Plan

/-- Without keys, a plan returns one row exactly when some part of its filter, with all conjunctions taken apart, fixes
a unique column, if and only if such parts are not all buried.  An object and the conjunction of its members have the
same plan. -/
theorem cardinality_eq_one_iff_flat {schema : Schema} {metadata : Bool} {query : Query} {plan : Plan} {thing : Thing}
    (hbuild : Plan.build schema metadata query = .ok plan) (hthing : schema.thing? query.thing = some thing)
    (hid : query.options.id = none) :
    ((plan.cardinality = .one ↔ ∃ f, plan.filter = some f ∧ ∃ c ∈ f.flatConjuncts, c.pins thing = true) ↔
        ¬∃ f, plan.filter = some f ∧ f.BuriesPin thing) ∧
      ∀ members, Plan.build schema metadata
          { query with options := query.options.withFilter (Filter.conjunctionOf members) } =
        Plan.build schema metadata { query with options := query.options.withFilter (.object members) } := by
  refine ⟨?_, fun members => ?_⟩
  · have hone := cardinality_eq_one_iff hbuild hthing
    simp only [hid, Option.bind_none, Option.isSome_none, Bool.false_eq_true, false_or] at hone
    rw [hone]
    simp only [Filter.exists_pins_flat_iff]
    constructor
    · rintro hflat ⟨f, hf, hburied⟩
      obtain ⟨g, hg, c, hc, hpins⟩ := hflat.2 ⟨f, hf, .inr hburied⟩
      cases hf.symm.trans hg
      rw [hburied.outermost c hc] at hpins
      cases hpins
    · intro hnone
      constructor
      · rintro ⟨f, hf, hpins⟩
        exact ⟨f, hf, .inl hpins⟩
      · rintro ⟨f, hf, hpins | hburied⟩
        · exact ⟨f, hf, hpins⟩
        · exact absurd ⟨f, hf, hburied⟩ hnone
  · unfold Plan.build
    dsimp only
    simp only [Level.build_withFilter_congr (Filter.ofJson_conjunctionOf schema _ members)]
    rfl

end Plan

/-- The accounts of a service. -/
def accountThing : Thing where
  name := "Account"
  kind := .entity
  idFields := ["id"]
  fields :=
    [.key "id", .uniqueText "email", .text "name" .one, ⟨"plan", .constant (.string "free")⟩,
     ⟨"sessions", .link .many "Session" "account" .relation ⟨"Session", "account", .one⟩⟩]

def sessionThing : Thing where
  name := "Session"
  kind := .relation
  idFields := ["id"]
  fields := [.key "id", ⟨"account", .role .one ⟨"Account", "sessions", .many⟩⟩]

/-- Accounts, of which no two have one address, and their sessions. -/
def accountSchema : Schema := .ofThings [accountThing, sessionThing]

example : accountSchema.validate = .ok () := rfl

/-- The accounts of one name whose address satisfies a condition. -/
def addressQuery (condition : Json) : Query where
  thing := "Account"
  options := { filter := some (.object [("email", condition), ("name", .string "Ada")]) }
  selection := .only [.field "name"]

/-- The plan of an `addressQuery` whose condition is built into a filter. -/
def addressPlan (condition : Filter) (cardinality : Cardinality) : Plan where
  thing := "Account"
  source := .scan ["Account"]
  columns := [.data "name" none]
  filter := some (.and [condition, .scalar .eq "name" (.string "Ada")])
  limit := none
  offset := none
  sort := []
  cardinality

namespace Plan

theorem cardinality_eq_one_iff_flat_accounts :
    Plan.build accountSchema false (addressQuery (.string "ada@example.org")) =
        .ok (addressPlan (.scalar .eq "email" (.string "ada@example.org")) .one) ∧
      accountSchema.thing? "Account" = some accountThing ∧
      ((addressPlan (.scalar .eq "email" (.string "ada@example.org")) .one).cardinality = .one ↔
        ∃ f, (addressPlan (.scalar .eq "email" (.string "ada@example.org")) .one).filter = some f ∧
          ∃ c ∈ f.flatConjuncts, c.pins accountThing = true) := by
  have hbuild : Plan.build accountSchema false (addressQuery (.string "ada@example.org")) =
      .ok (addressPlan (.scalar .eq "email" (.string "ada@example.org")) .one) := rfl
  have hthing : accountSchema.thing? "Account" = some accountThing := rfl
  refine ⟨hbuild, hthing, (cardinality_eq_one_iff_flat hbuild hthing rfl).1.2 ?_⟩
  rintro ⟨f, hf, houtermost, _⟩
  cases hf
  have hpins := houtermost (.scalar .eq "email" (.string "ada@example.org")) List.mem_cons_self
  revert hpins
  decide

/-- With the address written as two operators, the plan returns a list although a part of its filter fixes the
address. -/
theorem not_cardinality_eq_one_iff_flat_accounts :
    Plan.build accountSchema false
        (addressQuery (.object [("$eq", .string "ada@example.org"), ("$exists", .bool true)])) =
      .ok (addressPlan (.and [.scalar .eq "email" (.string "ada@example.org"), .null .isNotNone "email" none])
        .many) ∧
      (addressPlan (.and [.scalar .eq "email" (.string "ada@example.org"), .null .isNotNone "email" none])
        .many).cardinality ≠ .one ∧
      ∃ f, (addressPlan (.and [.scalar .eq "email" (.string "ada@example.org"), .null .isNotNone "email" none])
          .many).filter = some f ∧
        ∃ c ∈ f.flatConjuncts, c.pins accountThing = true := by
  refine ⟨rfl, by decide, _, rfl, .scalar .eq "email" (.string "ada@example.org"), ?_, by decide⟩
  simp [Filter.flatConjuncts, Filter.flatParts]

end Plan

end ThingQuery
