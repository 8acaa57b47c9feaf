import ThingQuery.Plan.Build
import ThingQuery.Proofs.KeptSource
import ThingQuery.Proofs.TidyFixpoint

/-!
# When a better plan cannot be bettered

A better plan has tidy filters, which stay as they are.  Only a scan that was kept may still be given up: its filter is
sorted by cost again before a better way is looked for, and another part of it may come first then.  That happens in one
case only (`Plan.Overtaken`): membership in a list came first, has become a disjunction of equalities, which costs more,
and is overtaken by a part along which a relationship can be followed.  So a better plan is the best one exactly when no
part of its filter is overtaken in this way (`Plan.optimize_optimize_iff`).
-/

namespace ThingQuery

namespace Filter

/-- The first part of the conjunction is membership in a list, which leads as a disjunction of equalities and is then
overtaken by the next part because that costs less. -/
structure OvertakenBy (thing : Thing) (filter : Filter) (left : String) (values : List Json) (next : Filter)
    (rest : List Filter) : Prop where
  /-- Membership in the list comes first. -/
  first : filter = .and (.list .isIn left values :: next :: rest)
  /-- It is not the key that is looked for. -/
  notKey : left ≠ idColumn
  leads : filter.reorder thing = .and (.or (equalities left values) :: next :: rest)
  /-- They cost more than the next part. -/
  costs : (Filter.or (equalities left values)).cost.atMost next.cost = false

/-- What comes first when the parts of a conjunction that are led are sorted again. -/
theorem head?_sortByCost_leadConjuncts (thing : Thing) {filters : List Filter} (hproper : ∀ f ∈ filters, f.IsProper)
    (hsorted : ByCost filters) :
    (sortByCost (leadConjuncts thing filters)).head? = filters.head? ∨
    (sortByCost (leadConjuncts thing filters)).head? = (leadConjuncts thing filters).head? ∨
    ∃ left values next rest, (Filter.and filters).OvertakenBy thing left values next rest ∧
      (sortByCost (leadConjuncts thing filters)).head? = some next ∧
      ∀ c, next.candidate? thing = some c → c.penalty ≠ 0 := by
  rcases leadConjuncts_cases thing filters with
    ⟨before, found, after, best, rfl, hbest, _, hled⟩ | ⟨_, hled⟩ | ⟨_, _, hled⟩
  · have hrest : ByCost (before ++ after) :=
      hsorted.sublist ((List.Sublist.refl before).append (List.sublist_cons_self found after))
    -- the leading part goes behind the parts that are cheaper than it
    obtain ⟨cheaper, rest, hsort, hsplit, hcheaper⟩ := sortByCost_cons (f := found.spreadOr) hrest
    rw [hled, hsort]
    cases cheaper with
    | nil => exact .inr (.inl rfl)
    | cons next cheaper =>
      cases before with
      | cons first before =>
        obtain ⟨rfl, _⟩ := List.cons.inj hsplit
        exact .inl rfl
      | nil =>
        obtain rfl : after = next :: (cheaper ++ rest) := hsplit
        have hcost := hcheaper next List.mem_cons_self
        rcases spread_cases found with ⟨hspread, _⟩ | ⟨left, values, rfl, hleft, hspread, _⟩
        · rw [hspread, (List.pairwise_cons.1 hsorted).1 next List.mem_cons_self] at hcost
          cases hcost
        · obtain ⟨_, rfl⟩ := candidate?_isIn hleft hbest.candidate
          rw [hspread] at hcost hled
          refine .inr (.inr ⟨left, values, next, cheaper ++ rest, ⟨rfl, hleft, congrArg Filter.and hled, hcost⟩, rfl, ?_⟩)
          -- a lookup of a key would have been the best candidate
          intro c hc hzero
          have hunbeaten := hbest.unbeaten next (by simp) c hc
          rw [Bool.eq_false_iff, ne_eq, Candidate.beats_iff] at hunbeaten
          exact hunbeaten (.inl (hzero ▸ Candidate.listPenalty_pos _))
  · rw [sortByCost_of_byCost (byCost_of_leadByComposite? hproper hsorted hled)]
    exact .inr (.inl rfl)
  · rw [hled, sortByCost_of_byCost hsorted]
    exact .inl rfl

/-- What comes first when a filter that is led is sorted again, unless it is a disjunction. -/
theorem head?_normalize_reorder (thing : Thing) {filter : Filter} (h : filter.IsProper) :
    (filter.reorder thing).normalize.conjuncts.head? = filter.conjuncts.head? ∨
    (filter.reorder thing).normalize.conjuncts.head? = (filter.reorder thing).conjuncts.head? ∨
    (filter.reorder thing).normalize.isOr = true ∨
    ∃ left values next rest, filter.OvertakenBy thing left values next rest ∧
      (filter.reorder thing).normalize.conjuncts.head? = some next ∧
      ∀ c, next.candidate? thing = some c → c.penalty ≠ 0 := by
  cases hf : filter with
  | and children =>
    rw [hf] at h
    rw [normalize_reorder_and h]
    cases h with
    | and _ hproper _ hsorted =>
      rcases head?_sortByCost_leadConjuncts thing hproper hsorted with hfirst | hfirst | hover
      · exact .inl hfirst
      · exact .inr (.inl hfirst)
      · exact .inr (.inr (.inr hover))
  | or children =>
    rw [hf] at h
    rw [normalize_reorder_or h]
    exact .inr (.inr (.inl rfl))
  | _ =>
    have hsame : filter.reorder thing = filter := reorder_of_not_connective thing (by rw [hf]; rfl) (by rw [hf]; rfl)
    rw [← hf, hsame, normalize_of_isProper h]
    exact .inl rfl

theorem OvertakenBy.head?_eq {thing : Thing} {filter next : Filter} {left : String} {values : List Json}
    {rest : List Filter} (h : filter.OvertakenBy thing left values next rest) (hproper : filter.IsProper) :
    (filter.reorder thing).normalize.conjuncts.head? = some next := by
  have hsorted : ByCost (next :: rest) := by
    rw [h.first] at hproper
    cases hproper with
    | and _ _ _ hsorted => exact (List.pairwise_cons.1 hsorted).2
  have hled := h.leads
  rw [h.first] at hled
  obtain ⟨cheaper, rest', hsort, hsplit, _⟩ := sortByCost_cons (f := .or (equalities left values)) hsorted
  have hnormal : (filter.reorder thing).normalize = .and (cheaper ++ .or (equalities left values) :: rest') := by
    rw [← hsort, ← Filter.and.inj hled, h.first]
    exact normalize_reorder_and (h.first ▸ hproper)
  rw [hnormal]
  cases cheaper with
  | cons first cheaper =>
    obtain ⟨rfl, _⟩ := List.cons.inj hsplit
    rfl
  | nil =>
    -- otherwise the equalities would cost no more than the next part
    obtain rfl : next :: rest = rest' := hsplit
    have hcost := byCost_sortByCost (.or (equalities left values) :: next :: rest)
    rw [hsort] at hcost
    have hnext := (List.pairwise_cons.1 hcost).1 next List.mem_cons_self
    rw [h.costs] at hnext
    cases hnext

end Filter

/-- What looks up a key is a candidate without penalty. -/
theorem Source.exists_candidate?_of_pointLookup? {tables : List String} {filter : Filter} {source : Source}
    (h : Source.pointLookup? tables filter = some source) (thing : Thing) :
    ∃ c, filter.candidate? thing = some c ∧ c.penalty = 0 := by
  rcases Source.pointLookup?_eq_some h with ⟨_, rfl, _⟩ | ⟨_, _, rfl, _, _⟩
  · exact ⟨⟨0, idColumn, false⟩, by simp [Filter.candidate?], rfl⟩
  · exact ⟨⟨0, idColumn, false⟩, by simp [Filter.candidate?], rfl⟩

namespace Schema

variable {schema : Schema} {way : Thing → Filter → Option Access} {name : String} {tables : List String}

theorem improveScan?_eq_none_iff {filter : Filter} :
    schema.improveScan? way name tables filter = none ↔
      ∀ first, filter.conjuncts.head? = some first →
        Source.pointLookup? tables first = none ∧ schema.traversal? way name first = none := by
  unfold improveScan?
  split
  · rename_i hconj
    simp [hconj]
  · rename_i first rest hconj
    rw [hconj, Option.map_eq_none_iff, Option.orElse_eq_orElse, Option.orElse_eq_or, Option.or_eq_none_iff]
    simp

/-- The source of a plan that does not scan is kept, and its filter is made tidy. -/
theorem improveWith_of_ne_scan {source : Source} {filter : Option Filter} (h : ∀ tables, source ≠ .scan tables) :
    schema.improveWith way name source filter = (source, filter.bind (Filter.tidy? schema name)) := by
  rcases schema.improveWith_cases way name source filter with
    ⟨htruthy, he⟩ | ⟨f, rfl, htruthy, he, _⟩ | ⟨_, tables, _, _, _, _, hscan, _⟩
  · rw [he]
    cases filter with
    | none => rfl
    | some f => simp [Filter.tidy?, htruthy f rfl]
  · rw [he]
    simp [Filter.tidy?, htruthy]
  · exact absurd hscan (h tables)

theorem improveScan?_of_isOr {filter : Filter} (h : filter.isOr = true) :
    schema.improveScan? way name tables filter = none := by
  cases filter with
  | or children =>
    rw [improveScan?_eq_none_iff]
    rintro first ⟨⟩
    exact ⟨rfl, rfl⟩
  | _ => cases h

/-- Membership in a list of values other than keys gives no better way, and neither does a disjunction. -/
theorem improveScan?_of_overtakenBy {thing : Thing} {filter next : Filter} {left : String} {values : List Json}
    {rest : List Filter} (h : filter.OvertakenBy thing left values next rest) :
    schema.improveScan? way name tables filter = none ∧
      schema.improveScan? way name tables (filter.reorder thing) = none := by
  rw [improveScan?_eq_none_iff, improveScan?_eq_none_iff, h.leads, h.first]
  constructor
  · rintro first ⟨⟩
    exact ⟨by rw [Source.pointLookup?, if_neg h.notKey], rfl⟩
  · rintro first ⟨⟩
    exact ⟨rfl, rfl⟩

/-- If neither a filter nor the filter that is led gives a better way, the filter that is sorted again gives one only
when its first part has been overtaken. -/
theorem overtakenBy_of_improveScan? {filter : Filter} {access : Access} (h : filter.IsNormal)
    (htruthy : filter.isTruthy = false) (hnormal : schema.improveScan? way name tables filter = none)
    (hled : schema.improveScan? way name tables (filter.reorderFor schema name) = none)
    (hagain : schema.improveScan? way name tables (filter.reorderFor schema name).normalize = some access) :
    ∃ thing left values next rest, schema.thing? name = some thing ∧
      filter.OvertakenBy thing left values next rest ∧ (schema.traversal? way name next).isSome = true := by
  cases hthing : schema.thing? name with
  | none =>
    have hkept : filter.reorderFor schema name = filter := by simp only [Filter.reorderFor, hthing]
    rw [hkept, Filter.normalize_of_isNormal h, hnormal] at hagain
    cases hagain
  | some thing =>
    have hreorder : filter.reorderFor schema name = filter.reorder thing := by simp only [Filter.reorderFor, hthing]
    rw [hreorder] at hled hagain
    rcases h with rfl | rfl | h
    · cases hnormal.symm.trans hagain
    · cases htruthy
    · -- the better way depends on the first part only
      have hsame : ∀ {g : Filter}, (filter.reorder thing).normalize.conjuncts.head? = g.conjuncts.head? →
          schema.improveScan? way name tables g ≠ none := by
        intro g he hg
        rw [improveScan?_eq_none_iff, ← he, ← improveScan?_eq_none_iff, hagain] at hg
        cases hg
      rcases Filter.head?_normalize_reorder thing h with hfirst | hfirst | hor | hover
      · exact absurd hnormal (hsame hfirst)
      · exact absurd hled (hsame hfirst)
      · cases (improveScan?_of_isOr hor).symm.trans hagain
      · obtain ⟨left, values, next, rest, hover, hfirst, hpenalty⟩ := hover
        refine ⟨thing, left, values, next, rest, rfl, hover, ?_⟩
        obtain ⟨first, rest', hconj, hsource, _⟩ := improveScan?_eq_some hagain
        rw [hconj] at hfirst
        cases hfirst
        rcases hsource with hsource | hsource
        · obtain ⟨c, hc, hzero⟩ := Source.exists_candidate?_of_pointLookup? hsource thing
          exact absurd hzero (hpenalty c hc)
        · rw [hsource]
          rfl

end Schema

/-- The filter of a scan is overtaken by a part along which a relationship can be followed. -/
def Plan.Overtaken (schema : Schema) (plan : Plan) : Prop :=
  ∃ tables filter thing left values next rest, plan.source = .scan tables ∧ plan.filter = some filter ∧
    schema.thing? plan.thing = some thing ∧ filter.normalize.OvertakenBy thing left values next rest ∧
    (schema.traversal? schema.follow plan.thing next).isSome = true

namespace Plan

variable {schema : Schema} {plan : Plan}

/-- A better plan stays as it is when the way to its rows does. -/
theorem optimize_optimize_eq_iff (schema : Schema) (plan : Plan) :
    (plan.optimize schema).optimize schema = plan.optimize schema ↔
      let access := schema.improveWith schema.follow plan.thing plan.source plan.filter
      schema.improveWith schema.follow plan.thing access.1 access.2 = access := by
  rw [optimize_eq schema (plan.optimize schema), optimize_eq schema plan]
  dsimp only
  rw [Column.tidyAll_tidyAll]
  constructor
  · intro h
    exact Prod.ext (congrArg Plan.source h) (congrArg Plan.filter h)
  · intro h
    rw [h]

/-- A scan that was kept stays when the filter that is sorted again gives no better way. -/
theorem improveWith_reorderFor_iff {filter : Filter} {tables : List String} {name : String} (h : filter.IsNormal)
    (htruthy : filter.isTruthy = false)
    (hled : schema.improveScan? schema.follow name tables (filter.reorderFor schema name) = none) :
    schema.improveWith schema.follow name (.scan tables) (some (filter.reorderFor schema name)) =
        (.scan tables, some (filter.reorderFor schema name)) ↔
      schema.improveScan? schema.follow name tables (filter.reorderFor schema name).normalize = none := by
  obtain ⟨hreorder, htruthy'⟩ := Filter.reorderFor_normalize_reorderFor schema name h htruthy
  rcases schema.improveWith_cases schema.follow name (.scan tables) (some (filter.reorderFor schema name)) with
    ⟨htruthy'', _⟩ | ⟨f, hf, _, he, hnone⟩ | ⟨f, tables', start, access, hf, _, hscan, hstart, hbetter, he⟩
  · rw [htruthy'' _ rfl] at htruthy'
    cases htruthy'
  · cases hf
    rw [hreorder] at he
    exact iff_of_true he (hnone tables rfl).1
  · cases hf
    cases hscan
    have hchanged : access.1 ≠ .scan tables := Schema.ne_scan_of_improveScan? hbetter tables
    rcases hstart with rfl | rfl
    · refine iff_of_false (fun hsame => hchanged ?_) (by rw [hbetter]; exact Option.some_ne_none _)
      rw [he] at hsame
      exact congrArg Prod.fst hsame
    · rw [hreorder, hled] at hbetter
      cases hbetter

theorem Overtaken.improveScan?_eq_none {tables : List String} {filter start : Filter} (h : plan.Overtaken schema)
    (hfilter : plan.filter = some filter)
    (hstart : start = filter.normalize ∨ start = filter.normalize.reorderFor schema plan.thing) :
    schema.improveScan? schema.follow plan.thing tables start = none := by
  obtain ⟨_, f, thing, left, values, next, rest, _, hf, hthing, hover, _⟩ := h
  cases hfilter.symm.trans hf
  obtain ⟨hnormal, hled⟩ := Schema.improveScan?_of_overtakenBy hover
  rcases hstart with rfl | rfl
  · exact hnormal
  · simp only [Filter.reorderFor, hthing]
    exact hled

theorem Overtaken.improveScan?_ne_none {tables : List String} {filter : Filter} (h : plan.Overtaken schema)
    (hfilter : plan.filter = some filter) :
    schema.improveScan? schema.follow plan.thing tables (filter.normalize.reorderFor schema plan.thing).normalize ≠
      none := by
  obtain ⟨_, f, thing, left, values, next, rest, _, hf, hthing, hover, hnext⟩ := h
  cases hfilter.symm.trans hf
  have hproper : filter.normalize.IsProper := by
    rcases Filter.isNormal_normalize filter with hn | hn | hn
    · cases hn.symm.trans hover.first
    · cases hn.symm.trans hover.first
    · exact hn
  intro hnone
  simp only [Filter.reorderFor, hthing] at hnone
  have hnext' := (Schema.improveScan?_eq_none_iff.1 hnone next (hover.head?_eq hproper)).2
  rw [hnext'] at hnext
  cases hnext

theorem Overtaken.optimize_optimize_ne (h : plan.Overtaken schema) :
    (plan.optimize schema).optimize schema ≠ plan.optimize schema := by
  rw [ne_eq, optimize_optimize_eq_iff]
  dsimp only
  obtain ⟨tables, f, _, _, _, _, _, hsource, hfilter, _, hover, _⟩ := id h
  rcases schema.improveWith_cases schema.follow plan.thing plan.source plan.filter with
    ⟨htruthy, _⟩ | ⟨f', hf, htruthy, he, hnone⟩ | ⟨f', _, start, access, hf, _, _, hstart, hbetter, _⟩
  · have := htruthy f hfilter
    rw [hover.first] at this
    cases this
  · rw [he, hsource, improveWith_reorderFor_iff (Filter.isNormal_normalize f') htruthy (hnone tables hsource).2]
    exact h.improveScan?_ne_none hf
  · rw [h.improveScan?_eq_none hf hstart] at hbetter
    cases hbetter

theorem optimize_optimize_of_not_overtaken (h : ¬plan.Overtaken schema) :
    (plan.optimize schema).optimize schema = plan.optimize schema := by
  rw [optimize_optimize_eq_iff]
  dsimp only
  rcases schema.improveWith_cases schema.follow plan.thing plan.source plan.filter with
    ⟨_, he⟩ | ⟨f, hf, htruthy, he, hnone⟩ | ⟨_, _, _, access, _, _, _, _, hbetter, he⟩
  · rw [he]
    rfl
  · rw [he]
    by_cases hscan : ∃ tables, plan.source = .scan tables
    · obtain ⟨tables, hsource⟩ := hscan
      obtain ⟨hnormal, hled⟩ := hnone tables hsource
      rw [hsource, improveWith_reorderFor_iff (Filter.isNormal_normalize f) htruthy hled]
      refine Option.eq_none_iff_forall_ne_some.2 fun access hagain => h ?_
      obtain ⟨thing, left, values, next, rest, hthing, hover, hnext⟩ :=
        Schema.overtakenBy_of_improveScan? (Filter.isNormal_normalize f) htruthy hnormal hled hagain
      exact ⟨tables, f, thing, left, values, next, rest, hsource, hf, hthing, hover, hnext⟩
    · have htidy : f.tidy? schema plan.thing = some (f.normalize.reorderFor schema plan.thing) := by
        simp [Filter.tidy?, htruthy]
      rw [Schema.improveWith_of_ne_scan fun tables hsource => hscan ⟨tables, hsource⟩]
      exact congrArg _ (Filter.tidy?_of_tidy? htidy)
  · rw [he, Schema.improveWith_of_ne_scan (Schema.ne_scan_of_improveScan? hbetter), Filter.bind_tidy?_bind_tidy?]

/-- A better plan is the best one exactly when no part of the filter is overtaken by one along which a relationship can
be followed. -/
theorem optimize_optimize_iff (schema : Schema) (plan : Plan) :
    (plan.optimize schema).optimize schema = plan.optimize schema ↔ ¬plan.Overtaken schema :=
  ⟨fun h hover => hover.optimize_optimize_ne h, optimize_optimize_of_not_overtaken⟩

/-- The memberships of two levels that two users have. -/
def levelQuery : Query where
  thing := "Member"
  options :=
    { filter := some (.object
        [("level", .object [("$in", .array [.string "gold", .string "silver"])]),
         ("user", .array [.string "u1", .string "u2"])]) }

def levelFilter : Filter := .list .isIn "level" [.string "gold", .string "silver"]

def userFilter : Filter := .ref .isIn "user" ["u1", "u2"] (some ["User"]) none

/-- The plan of `levelQuery`. -/
def levelPlan : Plan where
  thing := "Member"
  source := .scan ["Member"]
  columns :=
    [.metadata .thing none, .metadata .id none, .data "id" none, .data "level" none, .reference "user" none .one none]
  filter := some (.and [levelFilter, userFilter])
  limit := none
  offset := none
  sort := []
  cardinality := .many

theorem isProper_levelFilter_and_userFilter : (Filter.and [levelFilter, userFilter]).IsProper := by
  refine .and (by simp) ?_ ?_ ?_
  · exact List.forall_mem_cons.2 ⟨.list (by simp), List.forall_mem_singleton.2 (.ref (by simp) (by simp))⟩
  · exact List.forall_mem_cons.2 ⟨rfl, List.forall_mem_singleton.2 rfl⟩
  · exact List.pairwise_pair.2 (by decide +kernel)

/-- The levels lead, since there are as few of them as there are users and their column comes first. -/
theorem reorder_levelFilter_and_userFilter :
    (Filter.and [levelFilter, userFilter]).reorder memberThing = .and [levelFilter.spreadOr, userFilter] := by
  have hbest : Filter.IsBest memberThing [] levelFilter [userFilter] ⟨2, "level", false⟩ := by
    refine ⟨rfl, by simp, List.forall_mem_cons.2 ⟨?_, List.forall_mem_singleton.2 ?_⟩⟩
    · rintro c ⟨⟩
      decide
    · rintro c ⟨⟩
      decide
  have hcomposite : Filter.leadByComposite? memberThing [levelFilter, userFilter] = none := by
    simp [Filter.leadByComposite?, Thing.compositeIndexes, memberThing]
  exact congrArg Filter.and (hbest.leadConjuncts_eq (.inr hcomposite))

theorem overtaken_levelPlan : levelPlan.Overtaken memberSchema := by
  have hnormal := Filter.normalize_of_isProper isProper_levelFilter_and_userFilter
  refine ⟨["Member"], .and [levelFilter, userFilter], memberThing, "level", [.string "gold", .string "silver"],
    userFilter, [], rfl, rfl, rfl, ?_, rfl⟩
  rw [hnormal]
  exact ⟨rfl, by decide, reorder_levelFilter_and_userFilter, by decide +kernel⟩

/-- Of the memberships of two levels that two users have, the scan is kept at first and given up later. -/
theorem optimize_optimize_ne_levels :
    memberSchema.validate = .ok () ∧ build memberSchema true levelQuery = .ok levelPlan ∧
      (levelPlan.optimize memberSchema).optimize memberSchema ≠ levelPlan.optimize memberSchema :=
  ⟨rfl, rfl, overtaken_levelPlan.optimize_optimize_ne⟩

end Plan

end ThingQuery
