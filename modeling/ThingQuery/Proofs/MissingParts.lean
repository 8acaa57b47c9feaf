import ThingQuery.Proofs.Grammatical
import ThingQuery.Proofs.TidyFixpoint
import ThingQuery.Proofs.TypedPlan

/-!
# Where parts are missing

Normal forms have no empty lists, so an optimized plan has parts in every list, except where the query itself asks for
the records of no keys.  Hence the statement of an accepted query is grammatical exactly when the query does not ask for
that and, unless the plan is optimized, no disjunction is empty (`Plan.derives_statement_of_build`).
-/

namespace ThingQuery

/-! ### Normal forms -/

namespace Filter

variable {filter : Filter}

/-- A comparison with a list of values or keys is with at least one of them. -/
def NamesValues : Filter → Prop
  | .list _ _ values => values ≠ []
  | .ref _ _ ids _ _ => ids ≠ []
  | _ => True

theorem IsProper.namesValues (h : filter.IsProper) : filter.NamesValues := by
  cases h with
  | list hlen => exact List.ne_nil_of_length_pos (Nat.lt_of_lt_of_le Nat.two_pos hlen)
  | ref hids => exact hids
  | _ => trivial

theorem IsProper.hasParts (h : filter.IsProper) : filter.HasParts 1 := by
  induction h with
  | scalar => exact .scalar _ _ _
  | list => exact .list _ _ _
  | ref => exact .ref _ _ _ _ _
  | null => exact .null _ _ _
  | and _ _ _ _ ih => exact .and ih
  | or hlen _ _ _ ih => exact .or (Nat.le_trans (by decide) hlen) ih
  | not _ _ ih => exact .not ih
  | nestedTruthy => exact .nested _ _ _ (.and (by simp))
  | nested _ ih => exact .nested _ _ _ ih

theorem IsNormal.hasParts (h : filter.IsNormal) : filter.HasParts 1 := by
  rcases h with rfl | rfl | h
  · exact .falsy
  · exact .and (by simp)
  · exact IsProper.hasParts h

theorem IsNormal.namesValues_of_mem_conjuncts (h : filter.IsNormal) : ∀ f ∈ filter.conjuncts, f.NamesValues := by
  cases hfalsy : filter.isFalsy with
  | false => exact fun f hf => IsProper.namesValues (h.conjuncts hfalsy f hf).1
  | true =>
    cases filter with
    | falsy => exact List.forall_mem_singleton.2 trivial
    | _ => cases hfalsy

/-- The leading predicate is in front of parts that are proper. -/
theorem IsNormal.reorder (h : filter.IsNormal) (thing : Thing) :
    (filter.reorder thing).HasParts 1 ∧ ∀ f ∈ (filter.reorder thing).conjuncts, f.NamesValues := by
  cases filter with
  | and children =>
    have hproper := h.conjuncts rfl
    obtain ⟨hled, _⟩ := isProper_leadConjuncts thing hproper
    exact ⟨.and fun f hf => (hled f hf).1.hasParts, fun f hf => (hled f hf).1.namesValues⟩
  | or children =>
    rcases h with h | h | h
    · cases h
    · cases h
    · cases h with
      | or hlen hproper hflat =>
        obtain ⟨hled, hlength⟩ := isProper_leadDisjuncts thing fun f hf => ⟨hproper f hf, hflat f hf⟩
        exact ⟨.or (by omega) fun f hf => (hled f hf).1.hasParts, List.forall_mem_singleton.2 trivial⟩
  | _ => exact ⟨h.hasParts, h.namesValues_of_mem_conjuncts⟩

theorem IsNormal.reorderFor (h : filter.IsNormal) (schema : Schema) (thing : String) :
    (filter.reorderFor schema thing).HasParts 1 ∧
      ∀ f ∈ (filter.reorderFor schema thing).conjuncts, f.NamesValues := by
  unfold Filter.reorderFor
  split
  · exact h.reorder _
  · exact ⟨h.hasParts, h.namesValues_of_mem_conjuncts⟩

theorem hasParts_of_tidy? {schema : Schema} {thing : String} {tidy : Filter}
    (h : filter.tidy? schema thing = some tidy) : tidy.HasParts 1 := by
  unfold Filter.tidy? at h
  dsimp only at h
  split at h
  · cases h
  · cases h
    exact ((isNormal_normalize filter).reorderFor schema thing).1

end Filter

theorem Column.hasParts_tidy (schema : Schema) (column : Column) : (column.tidy schema).HasParts 1 := by
  induction column.hasParts_zero with
  | metadata field label => exact .metadata field label
  | data path label => exact .data path label
  | reference path label cardinality tunnel => exact .reference path label cardinality tunnel
  | flex path label cardinality => exact .flex path label cardinality
  | @nested scope columns _ _ ih =>
    rw [Column.tidy]
    refine .nested (fun f hf => ?_) ?_
    · obtain ⟨g, _, htidy⟩ := Option.bind_eq_some_iff.1 hf
      exact Filter.hasParts_of_tidy? htidy
    · rw [Column.tidyAll_eq_map]
      exact List.forall_mem_map.2 ih

/-! ### Better ways -/

/-- The rows have a target, and no disjunction in the filter is empty. -/
def Access.HasParts (access : Access) : Prop := access.1.HasParts 1 ∧ ∀ f ∈ access.2, f.HasParts 1

theorem Source.hasParts_of_pointLookup? {tables : List String} {first : Filter} {source : Source}
    (htables : 1 ≤ tables.length) (hfirst : first.NamesValues)
    (h : Source.pointLookup? tables first = some source) : source.HasParts 1 := by
  rcases Source.pointLookup?_eq_some h with ⟨id, rfl, rfl⟩ | ⟨values, ids, rfl, hids, rfl⟩
  · exact .pointer (by simpa using htables)
  · obtain ⟨v, rest, rfl⟩ := List.exists_cons_of_ne_nil hfirst
    rw [List.mapM_cons] at hids
    obtain ⟨id, _, hids⟩ := Option.bind_eq_some_iff.1 hids
    obtain ⟨others, _, hids⟩ := Option.bind_eq_some_iff.1 hids
    cases hids
    rw [List.eraseDups_cons]
    exact .pointer (Nat.mul_pos htables (Nat.succ_pos _))

namespace Schema

variable {schema : Schema} {way : Thing → Filter → Option Access}

/-- The way to the records at the other end of a relationship has targets. -/
def WayHasParts (schema : Schema) (way : Thing → Filter → Option Access) : Prop :=
  ∀ {target inner access}, schema.thing? target.name = some target → inner.WellTyped schema target →
    way target inner = some access → access.HasParts

theorem hasParts_of_traversal? (hway : schema.WayHasParts way) {owner : Thing} {first : Filter} {source : Source}
    (howner : schema.thing? owner.name = some owner) (hfirst : first.WellTyped schema owner)
    (hvalues : first.NamesValues) (h : schema.traversal? way owner.name first = some source) : source.HasParts 1 := by
  rcases traversal?_cases h with
    ⟨path, _, inner, owner', field, opposite, target, start, rest, rfl, howner', htrav, htarget, hfollow, rfl⟩ |
    ⟨op, left, ids, tables, owner', field, opposite, rfl, howner', htrav, _, rfl⟩
  · cases howner.symm.trans howner'
    have hinner := hfirst.inner_of_traversable? htrav htarget
    obtain ⟨hstart, hrest⟩ := hway (thing?_name htarget) hinner hfollow
    exact .subquery _ _ hstart hrest
  · cases howner.symm.trans howner'
    obtain ⟨target, _, rfl⟩ := hfirst.tables_of_traversable? htrav
    have htables : 0 < (schema.targetTables opposite (some target.variants)).length := Nat.succ_pos _
    exact .subquery _ _ (.pointer (Nat.mul_pos htables (List.length_pos_iff.2 hvalues))) (by simp)

/-- A better way has targets if the ways that it starts from have. -/
theorem hasParts_improveWith (hway : schema.WayHasParts way) {thing : Thing} {source : Source}
    {filter : Option Filter} (hthing : schema.thing? thing.name = some thing)
    (hfilter : ∀ f, filter = some f → f.WellTyped schema thing) (hsource : source.HasParts 1) :
    (schema.improveWith way thing.name source filter).HasParts := by
  have htyped := Filter.columnwise_wellTyped schema
  rcases schema.improveWith_cases way thing.name source filter with
    ⟨_, he⟩ | ⟨f, rfl, _, he, _⟩ | ⟨f, tables, start, access, rfl, _, rfl, hstart, hscan, he⟩
  · rw [he]
    exact ⟨hsource, by simp⟩
  · rw [he]
    refine ⟨hsource, ?_⟩
    rintro g ⟨⟩
    exact ((Filter.isNormal_normalize f).reorderFor schema thing.name).1
  · rw [he]
    have hnormal := Filter.isNormal_normalize f
    have hnormalTyped := htyped.normalize f thing (hfilter f rfl)
    have hparts : start.WellTyped schema thing ∧ ∀ g ∈ start.conjuncts, g.NamesValues := by
      rcases hstart with rfl | rfl
      · exact ⟨hnormalTyped, hnormal.namesValues_of_mem_conjuncts⟩
      · exact ⟨htyped.reorderFor schema thing.name hnormalTyped, (hnormal.reorderFor schema thing.name).2⟩
    obtain ⟨first, rest, hconj, hbetter, _⟩ := improveScan?_eq_some hscan
    have hmem : first ∈ start.conjuncts := by simp [hconj]
    refine ⟨?_, fun g hg => ?_⟩
    · cases hsource with
      | scan htables =>
        rcases hbetter with hbetter | hbetter
        · exact Source.hasParts_of_pointLookup? htables (hparts.2 first hmem) hbetter
        · exact hasParts_of_traversal? hway hthing (htyped.conjuncts hparts.1 hmem) (hparts.2 first hmem) hbetter
    · obtain ⟨residual, _, htidy⟩ := Option.bind_eq_some_iff.1 hg
      exact Filter.hasParts_of_tidy? htidy

theorem wayHasParts_follow (schema : Schema) : schema.WayHasParts schema.follow := by
  intro target inner access htarget hinner h
  refine follow_induction (P := fun target inner access =>
    schema.thing? target.name = some target → inner.WellTyped schema target → access.HasParts)
    (fun way ih target inner htarget hinner => ?_) h htarget hinner
  have hscan : (Source.scan target.variants).HasParts 1 := .scan (Nat.succ_pos _)
  refine hasParts_improveWith (fun htarget hinner h => ih _ _ _ h htarget hinner) htarget ?_ hscan
  rintro f ⟨⟩
  exact hinner

end Schema

/-! ### Accepted queries -/

namespace Plan

variable {schema : Schema}

/-- Optimization leaves no list empty. -/
theorem hasParts_optimize {plan : Plan} {thing : Thing} (hthing : schema.thing? plan.thing = some thing)
    (hfilter : ∀ f, plan.filter = some f → f.WellTyped schema thing) (hsource : plan.source.HasParts 1) :
    (plan.optimize schema).HasParts 1 := by
  have haccess := Schema.hasParts_improveWith schema.wayHasParts_follow (Schema.thing?_name hthing) hfilter hsource
  rw [Schema.name_of_thing? hthing] at haccess
  rw [Plan.optimize_eq]
  refine ⟨⟨haccess.2, ?_⟩, haccess.1⟩
  dsimp only
  rw [Column.tidyAll_eq_map]
  exact List.forall_mem_map.2 fun c _ => c.hasParts_tidy schema

/-- Only scans are improved. -/
theorem source_optimize_of_pointer {plan : Plan} {tables ids : List String} (h : plan.source = .pointer tables ids) :
    (plan.optimize schema).source = .pointer tables ids := by
  rw [Plan.optimize_eq, h]
  dsimp only
  rcases schema.improveWith_cases schema.follow plan.thing (.pointer tables ids) plan.filter with
    ⟨_, he⟩ | ⟨_, _, _, he, _⟩ | ⟨_, _, _, _, _, _, hscan, _⟩
  · rw [he]
  · rw [he]
  · cases hscan

/-- The source of an accepted query has a target unless the query asks for the records of no keys. -/
theorem source_of_build {metadata : Bool} {query : Query} {plan : Plan}
    (h : Plan.build schema metadata query = .ok plan) :
    (query.options.id ≠ some (.many []) ∧ plan.source.HasParts 1) ∨
      (query.options.id = some (.many []) ∧ ∃ tables, plan.source = .pointer tables []) := by
  obtain ⟨thing, columns, level, _, _, hlevel, rfl⟩ := Plan.build_eq_ok h
  obtain ⟨_, _, _, hids⟩ := Level.build_eq_ok hlevel
  have hvariants : 0 < thing.variants.length := Nat.succ_pos _
  dsimp only
  rw [hids]
  cases query.options.id with
  | none => exact .inl ⟨by simp, .scan hvariants⟩
  | some selector =>
    cases selector with
    | one id => exact .inl ⟨by simp, .pointer (Nat.mul_pos hvariants (Nat.succ_pos _))⟩
    | many ids =>
      cases ids with
      | nil => exact .inr ⟨rfl, thing.variants, rfl⟩
      | cons id rest => exact .inl ⟨by simp, .pointer (Nat.mul_pos hvariants (Nat.succ_pos _))⟩

/-- The filter of an accepted query fits the queried thing. -/
theorem wellTyped_filter_of_build (hvalid : schema.validate = .ok ()) {metadata : Bool} {query : Query} {plan : Plan}
    (h : Plan.build schema metadata query = .ok plan) :
    ∃ thing, schema.thing? plan.thing = some thing ∧ ∀ f, plan.filter = some f → f.WellTyped schema thing := by
  obtain ⟨thing, columns, level, hthing, _, hlevel, rfl⟩ := Plan.build_eq_ok h
  have hname := Schema.thing?_name hthing
  refine ⟨thing, hname, fun f hf => ?_⟩
  obtain ⟨v, _, hv⟩ := (Level.build_eq_ok hlevel).1 f hf
  exact Filter.wellTyped_of_ofJson hvalid v hname hv

theorem not_hasParts_pointer_nil (tables : List String) : ¬(Source.pointer tables []).HasParts 1 := by
  intro h
  cases h with
  | pointer hlen => simp at hlen

/-- The statement of an accepted query is grammatical exactly when the query does not ask for the records of no keys and
no filter has an empty disjunction; optimization removes the empty disjunctions. -/
theorem derives_statement_of_build (hvalid : schema.validate = .ok ()) {metadata : Bool} {query : Query} {plan : Plan}
    (h : Plan.build schema metadata query = .ok plan) (params : Params) :
    (Derives 1 .statement (plan.statement params).1 ↔
      query.options.id ≠ some (.many []) ∧ plan.FiltersHaveParts 1) ∧
    (Derives 1 .statement ((plan.optimize schema).statement params).1 ↔ query.options.id ≠ some (.many [])) := by
  rw [derives_statement_iff, derives_statement_iff]
  rcases source_of_build h with ⟨hid, hsource⟩ | ⟨hid, tables, hsource⟩
  · obtain ⟨thing, hthing, hfilter⟩ := wellTyped_filter_of_build hvalid h
    have hoptimized := hasParts_optimize hthing hfilter hsource
    exact ⟨⟨fun hparts => ⟨hid, hparts.toFiltersHaveParts⟩, fun hparts => ⟨hparts.2, hsource⟩⟩,
      fun _ => hid, fun _ => hoptimized⟩
  · have hmissing := not_hasParts_pointer_nil tables
    refine ⟨⟨fun hparts => ?_, fun hparts => absurd hid hparts.1⟩, fun hparts => ?_, fun hne => absurd hid hne⟩
    · exact absurd (hsource ▸ hparts.source) hmissing
    · exact absurd (source_optimize_of_pointer hsource ▸ hparts.source) hmissing

theorem derives_statement_of_build_members :
    memberSchema.validate = .ok () ∧ Plan.build memberSchema false memberQuery = .ok memberPlan ∧
      Derives 1 .statement ((memberPlan.optimize memberSchema).statement .empty).1 := by
  have hvalid : memberSchema.validate = .ok () := rfl
  have hbuild : Plan.build memberSchema false memberQuery = .ok memberPlan := rfl
  refine ⟨hvalid, hbuild, (derives_statement_of_build hvalid hbuild .empty).2.2 ?_⟩
  intro hid
  cases hid

/-- The names of the users with the keys of an empty list. -/
def nobodyQuery : Query where
  thing := "User"
  options := { id := some (.many []) }
  selection := .only [.field "name"]

/-- The plan of `nobodyQuery`. -/
def nobodyPlan : Plan where
  thing := "User"
  source := .pointer ["User"] []
  columns := [.data "name" none]
  filter := none
  limit := none
  offset := none
  sort := []
  cardinality := .many

/-- Not every statement is grammatical: where no keys are asked for, nothing follows `FROM`. -/
theorem not_derives_statement_nobody :
    memberSchema.validate = .ok () ∧ Plan.build memberSchema false nobodyQuery = .ok nobodyPlan ∧
      (nobodyPlan.statement .empty).1 = "SELECT name FROM " ∧
      ((nobodyPlan.optimize memberSchema).statement .empty).1 = "SELECT name FROM " ∧
      ¬Derives 1 .statement "SELECT name FROM " := by
  have hstatement : (nobodyPlan.statement .empty).1 = "SELECT name FROM " := by decide +kernel
  refine ⟨rfl, rfl, hstatement, by decide +kernel, fun h => ?_⟩
  rw [← hstatement, derives_statement_iff] at h
  exact not_hasParts_pointer_nil ["User"] h.source

end Plan

end ThingQuery
