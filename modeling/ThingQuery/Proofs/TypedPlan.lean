import ThingQuery.Proofs.KeptSource
import ThingQuery.Proofs.Typing

/-!
# Well-typed plans

An accepted query over a sound schema has a well-typed plan (`Plan.wellTyped_of_build`): the columns are typed along the
selection and the filters by `Filter.wellTyped_of_ofJson`.  The search for a better way to the rows keeps it so
(`Schema.wellTyped_improveWith`), although it moves an inner filter to a source of its own, in the scope of the thing at
the other end.
-/

namespace ThingQuery

/-- No two fields of a thing have one name. -/
def Schema.DistinctFields (schema : Schema) : Prop :=
  ∀ thing ∈ schema.things.values, (thing.fields.map (·.name)).Nodup

instance (schema : Schema) : Decidable schema.DistinctFields :=
  inferInstanceAs (Decidable (∀ thing ∈ schema.things.values, (thing.fields.map (·.name)).Nodup))

theorem Thing.field?_of_mem {thing : Thing} (hdistinct : (thing.fields.map (·.name)).Nodup) {field : Field}
    (hfield : field ∈ thing.fields) : thing.field? field.name = some field := by
  obtain ⟨before, after, hsplit⟩ := List.append_of_mem hfield
  unfold Thing.field?
  rw [hsplit, List.map_append, List.map_cons] at hdistinct
  have hbefore : before.find? (·.name == field.name) = none := by
    refine List.find?_eq_none.2 fun other hother he => ?_
    have hname : field.name ∈ before.map (·.name) := List.mem_map.2 ⟨other, hother, eq_of_beq he⟩
    exact (List.nodup_append.1 hdistinct).2.2 _ hname _ List.mem_cons_self rfl
  rw [hsplit, List.find?_append, hbefore]
  simp

variable {schema : Schema} {metadata : Bool}

/-! ### Columns of accepted queries -/

theorem Column.wellTyped_of_column? {thing : Thing} {field : Field} {column : Column}
    (hfield : thing.field? field.name = some field) (h : field.column? thing = some column) :
    column.WellTyped schema thing := by
  unfold Field.column? at h
  split at h
  · cases h
  · cases h
  · rename_i hkind
    split at h
    · cases h
      exact .data (.inl rfl)
    · cases h
      exact .data (.inr ⟨field, hfield, by rw [hkind]; rfl⟩)
  · rename_i hkind
    cases h
    exact .flex hfield hkind
  · rename_i hkind
    cases h
    have htunnel : field.tunnel? = none := by simp [Field.tunnel?, hkind]
    rw [← htunnel]
    exact .reference hfield (by rw [hkind]; rfl) (by rw [hkind]; rfl)
  · rename_i hkind
    cases h
    exact .reference hfield (by rw [hkind]; rfl) (by rw [hkind]; rfl)
  · rename_i hkind
    cases h
    exact .reference hfield (by rw [hkind]; rfl) (by rw [hkind]; rfl)

theorem Column.wellTyped_of_distinctColumns {thing : Thing} {columns all : List Column}
    (hcolumns : ∀ c ∈ columns, c.WellTyped schema thing) (h : distinctColumns metadata columns = .ok all) :
    (∀ c ∈ all, c.WellTyped schema thing) ∧ (all.map (·.outputKey)).Nodup := by
  obtain ⟨rfl, hnodup⟩ := distinctColumns_eq_ok h
  refine ⟨List.forall_mem_append.2 ⟨?_, hcolumns⟩, hnodup⟩
  unfold metadataColumns
  split
  · exact List.forall_mem_cons.2 ⟨.metadata, List.forall_mem_singleton.2 .metadata⟩
  · simp

/-- The filter of an accepted level fits, and its sort keys lead to columns. -/
theorem Level.wellTyped_of_build {thing : Thing} {options : Options} {columns : List Column} {level : Level}
    (hvalid : schema.validate = .ok ()) (hthing : schema.thing? thing.name = some thing)
    (hnodup : (columns.map (·.outputKey)).Nodup) (h : Level.build schema thing options columns = .ok level) :
    (∀ f, level.filter = some f → f.WellTyped schema thing) ∧ Column.Keyed columns level.sort := by
  obtain ⟨hfilter, hsort, he, _⟩ := Level.build_eq_ok h
  refine ⟨fun f hf => ?_, hnodup, ?_⟩
  · obtain ⟨v, _, hv⟩ := hfilter f hf
    exact Filter.wellTyped_of_ofJson hvalid v hthing hv
  · rw [he]
    exact sortColumn_mem_of_validateSort hsort

mutual

/-- The columns of an accepted selection fit the thing from which it selects, and have keys of their own. -/
theorem Selection.wellTyped_of_columns (hvalid : schema.validate = .ok ()) (hdistinct : schema.DistinctFields)
    (selection : Selection) :
    ∀ {thing excluded columns}, schema.thing? thing.name = some thing →
      selection.columns schema metadata thing excluded = .ok columns →
      (∀ c ∈ columns, c.WellTyped schema thing) ∧ (columns.map (·.outputKey)).Nodup := by
  intro thing excluded columns hthing h
  match selection with
  | .all =>
    rw [Selection.columns] at h
    obtain ⟨_, _, h⟩ := ok_of_bind h
    refine Column.wellTyped_of_distinctColumns (fun c hc => ?_) h
    obtain ⟨field, hfield, hcolumn⟩ := List.mem_filterMap.1 hc
    have hnames := hdistinct thing (Schema.mem_values_of_thing? hthing)
    exact Column.wellTyped_of_column? (Thing.field?_of_mem hnames (List.mem_filter.1 hfield).1) hcolumn
  | .only selectors =>
    rw [Selection.columns] at h
    obtain ⟨_, _, h⟩ := ok_of_bind h
    obtain ⟨columns', hcolumns, h⟩ := ok_of_bind h
    have htyped := Selector.wellTyped_of_listColumns hvalid hdistinct selectors hthing hcolumns
    exact Column.wellTyped_of_distinctColumns htyped h

theorem Selector.wellTyped_of_listColumns (hvalid : schema.validate = .ok ()) (hdistinct : schema.DistinctFields)
    (selectors : List Selector) :
    ∀ {thing excluded columns}, schema.thing? thing.name = some thing →
      Selector.listColumns schema metadata thing excluded selectors = .ok columns →
      ∀ c ∈ columns, c.WellTyped schema thing := by
  intro thing excluded columns hthing h
  match selectors with
  | [] =>
    cases h
    simp
  | selector :: rest =>
    rw [Selector.listColumns] at h
    split at h
    · exact Selector.wellTyped_of_listColumns hvalid hdistinct rest hthing h
    · obtain ⟨column, hcolumn, h⟩ := ok_of_bind h
      obtain ⟨columns', hcolumns, h⟩ := ok_of_bind h
      cases h
      refine List.forall_mem_append.2
        ⟨fun c hc => ?_, Selector.wellTyped_of_listColumns hvalid hdistinct rest hthing hcolumns⟩
      rw [Option.mem_toList] at hc
      exact Selector.wellTyped_of_column? hvalid hdistinct selector hthing (hcolumn.trans (congrArg _ hc))

theorem Selector.wellTyped_of_column? (hvalid : schema.validate = .ok ()) (hdistinct : schema.DistinctFields)
    (selector : Selector) :
    ∀ {thing column}, schema.thing? thing.name = some thing →
      selector.column? schema metadata thing = .ok (some column) → column.WellTyped schema thing := by
  intro thing column hthing h
  match selector with
  | .field name =>
    rw [Selector.column?] at h
    obtain ⟨field, hfield, hcolumn⟩ := ok_of_bind h
    have hfound := field?_of_getField hfield
    cases (Thing.mem_of_field? hfound).2
    exact Column.wellTyped_of_column? hfound (Except.ok.inj hcolumn)
  | .nested path label options selection =>
    rw [Selector.column?] at h
    obtain ⟨field, hfield, h⟩ := ok_of_bind h
    split at h
    · rename_i hopp
      obtain ⟨target, htarget, h⟩ := ok_of_bind h
      obtain ⟨columns, hcolumns, h⟩ := ok_of_bind h
      obtain ⟨level, hlevel, h⟩ := ok_of_bind h
      cases h
      have hfound := thing?_of_targetThing htarget
      have hname := Schema.thing?_name hfound
      obtain ⟨htyped, hnodup⟩ := Selection.wellTyped_of_columns hvalid hdistinct selection hname hcolumns
      obtain ⟨hfilter, hkeyed⟩ := Level.wellTyped_of_build hvalid hname hnodup hlevel
      exact .nested (field?_of_getField hfield) ⟨_, hopp, hfound⟩ rfl rfl hfilter htyped hkeyed
    · cases h

end

theorem Plan.wellTyped_of_build {query : Query} {plan : Plan} (hvalid : schema.validate = .ok ())
    (hdistinct : schema.DistinctFields) (h : Plan.build schema metadata query = .ok plan) :
    plan.WellTyped schema := by
  obtain ⟨thing, columns, level, hthing, hcolumns, hlevel, rfl⟩ := Plan.build_eq_ok h
  have hname := Schema.thing?_name hthing
  obtain ⟨htyped, hnodup⟩ := Selection.wellTyped_of_columns hvalid hdistinct _ hname hcolumns
  obtain ⟨hfilter, hkeyed⟩ := Level.wellTyped_of_build hvalid hname hnodup hlevel
  refine ⟨thing, hname, ?_, hfilter, htyped, hkeyed⟩
  dsimp only
  split
  · exact .pointer
  · exact .scan

/-! ### Better ways -/

theorem Column.Keyed.tidyAll {columns : List Column} {sort : List SortKey} (h : Column.Keyed columns sort)
    (schema : Schema) : Column.Keyed (Column.tidyAll schema columns) sort := by
  have hkeys : (Column.tidyAll schema columns).map (·.outputKey) = columns.map (·.outputKey) := by
    simp [Column.tidyAll_eq_map, Column.outputKey_tidy]
  refine ⟨hkeys ▸ h.distinct, fun key hkey => ?_⟩
  rw [sortColumn_tidyAll, hkeys]
  exact h.sorted key hkey

/-- The rows are records of the thing and the filter fits them. -/
def Access.WellTyped (schema : Schema) (thing : Thing) (access : Access) : Prop :=
  access.1.WellTyped schema thing ∧ ∀ f, access.2 = some f → f.WellTyped schema thing

theorem Source.wellTyped_of_pointLookup? {thing : Thing} {first : Filter} {source : Source}
    (h : Source.pointLookup? thing.variants first = some source) : source.WellTyped schema thing := by
  rcases Source.pointLookup?_eq_some h with ⟨_, _, rfl⟩ | ⟨_, _, _, _, rfl⟩
  · exact .pointer
  · exact .pointer

/-- The condition on related records fits the thing at the other end. -/
theorem Filter.WellTyped.inner_of_traversable? {thing target : Thing} {path : String} {cardinality : Cardinality}
    {tunnel : Option String} {inner : Filter} {field : Field} {opposite : Opposite}
    (h : (Filter.nested path cardinality tunnel inner).WellTyped schema thing)
    (htrav : schema.traversable? thing path = some (field, opposite))
    (htarget : schema.thing? opposite.thing = some target) : inner.WellTyped schema target := by
  obtain ⟨hfield, _, hopp, _⟩ := Schema.traversable?_eq_some htrav
  cases h with
  | nested hfield' hleads hinner =>
    obtain ⟨opposite', hopp', htarget'⟩ := hleads
    cases hfield.symm.trans hfield'
    cases hopp.symm.trans hopp'
    cases htarget.symm.trans htarget'
    exact hinner

/-- The keys of a relationship are looked for in the tables of the thing at the other end. -/
theorem Filter.WellTyped.tables_of_traversable? {thing : Thing} {op : ListOp} {left : String} {ids : List String}
    {tables : Option (List String)} {tunnel : Option String} {field : Field} {opposite : Opposite}
    (h : (Filter.ref op left ids tables tunnel).WellTyped schema thing)
    (htrav : schema.traversable? thing left = some (field, opposite)) :
    ∃ target, schema.thing? opposite.thing = some target ∧ tables = some target.variants := by
  obtain ⟨hfield, _, hopp, _⟩ := Schema.traversable?_eq_some htrav
  cases h with
  | reference hfield' hkind =>
    -- a plain reference has no opposite
    cases hfield.symm.trans hfield'
    rw [hkind] at hopp
    cases hopp
  | relationship hfield' hleads =>
    obtain ⟨opposite', hopp', htarget⟩ := hleads
    cases hfield.symm.trans hfield'
    cases hopp.symm.trans hopp'
    exact ⟨_, htarget, rfl⟩

namespace Schema

variable {way : Thing → Filter → Option Access}

/-- The way that is taken to the records at the other end of a relationship is well typed. -/
def WayWellTyped (schema : Schema) (way : Thing → Filter → Option Access) : Prop :=
  ∀ {target inner access}, schema.thing? target.name = some target → inner.WellTyped schema target →
    way target inner = some access → access.WellTyped schema target

/-- Following a field back from records at its other end leads to the tables of its owner. -/
theorem wellTyped_subquery {owner target : Thing} {path : String} {field : Field} {opposite : Opposite}
    {access : Access} (htrav : schema.traversable? owner path = some (field, opposite))
    (htarget : schema.thing? opposite.thing = some target) (haccess : access.WellTyped schema target) :
    (Source.subquery access.1 opposite.path access.2 opposite.cardinality).WellTyped schema owner := by
  obtain ⟨_, _, _, backField, back, pointed, hback, hopp, hpointed, htables⟩ := traversable?_eq_some htrav
  rw [oppositeField?, htarget] at hback
  exact .subquery (thing?_name htarget) haccess.1 haccess.2 hback ⟨back, hopp, hpointed⟩ htables

theorem wellTyped_of_traversal? (hway : schema.WayWellTyped way) {owner : Thing} {first : Filter} {source : Source}
    (howner : schema.thing? owner.name = some owner) (hfirst : first.WellTyped schema owner)
    (h : schema.traversal? way owner.name first = some source) : source.WellTyped schema owner := by
  rcases traversal?_cases h with
    ⟨path, _, inner, owner', field, opposite, target, start, rest, rfl, howner', htrav, htarget, hfollow, rfl⟩ |
    ⟨op, left, ids, tables, owner', field, opposite, rfl, howner', htrav, _, rfl⟩
  · cases howner.symm.trans howner'
    have hinner := hfirst.inner_of_traversable? htrav htarget
    exact wellTyped_subquery htrav htarget (hway (thing?_name htarget) hinner hfollow)
  · cases howner.symm.trans howner'
    obtain ⟨target, htarget, rfl⟩ := hfirst.tables_of_traversable? htrav
    have hstart : Access.WellTyped schema target (.pointer target.variants ids, none) := ⟨.pointer, by simp⟩
    exact wellTyped_subquery htrav htarget hstart

/-- A better way is well typed if the ways that it starts from are. -/
theorem wellTyped_improveWith (hway : schema.WayWellTyped way) {thing : Thing} {source : Source}
    {filter : Option Filter} (hthing : schema.thing? thing.name = some thing)
    (haccess : Access.WellTyped schema thing (source, filter)) :
    (schema.improveWith way thing.name source filter).WellTyped schema thing := by
  have htyped := Filter.columnwise_wellTyped schema
  rcases schema.improveWith_cases way thing.name source filter with
    ⟨_, he⟩ | ⟨f, rfl, _, he, _⟩ | ⟨f, tables, start, access, rfl, _, rfl, hstart, hscan, he⟩
  · rw [he]
    exact ⟨haccess.1, by simp⟩
  · rw [he]
    refine ⟨haccess.1, ?_⟩
    rintro g ⟨⟩
    exact htyped.reorderFor schema thing.name (htyped.normalize f thing (haccess.2 f rfl))
  · rw [he]
    have hnormal := htyped.normalize f thing (haccess.2 f rfl)
    have hstart : start.WellTyped schema thing := by
      rcases hstart with rfl | rfl
      · exact hnormal
      · exact htyped.reorderFor schema thing.name hnormal
    obtain ⟨first, rest, hconj, hsource, hrest⟩ := improveScan?_eq_some hscan
    -- the first part gives the source, in a scope of its own; the other parts stay in the scope of the thing
    have hparts : ∀ g ∈ first :: rest, g.WellTyped schema thing := fun g hg => htyped.conjuncts hstart (hconj ▸ hg)
    rw [List.forall_mem_cons] at hparts
    refine ⟨?_, fun g hg => ?_⟩
    · rcases hsource with hsource | hsource
      · cases haccess.1
        exact Source.wellTyped_of_pointLookup? hsource
      · exact wellTyped_of_traversal? hway hthing hparts.1 hsource
    · obtain ⟨residual, hresidual, htidy⟩ := Option.bind_eq_some_iff.1 hg
      rw [hrest] at hresidual
      split at hresidual
      · cases hresidual
      · cases hresidual
        exact htyped.tidy? (htyped.all_iff.2 hparts.2) htidy

theorem wayWellTyped_follow (schema : Schema) : schema.WayWellTyped schema.follow := by
  intro target inner access htarget hinner h
  refine follow_induction (P := fun target inner access =>
    schema.thing? target.name = some target → inner.WellTyped schema target → access.WellTyped schema target)
    (fun way ih target inner htarget hinner => ?_) h htarget hinner
  refine wellTyped_improveWith (fun htarget hinner h => ih _ _ _ h htarget hinner) htarget ⟨.scan, ?_⟩
  rintro f ⟨⟩
  exact hinner

end Schema

theorem Column.WellTyped.tidy {thing : Thing} {column : Column} (h : column.WellTyped schema thing) :
    (column.tidy schema).WellTyped schema thing := by
  induction h with
  | metadata => exact .metadata
  | data hdata => exact .data hdata
  | reference hfield hkind hcard => exact .reference hfield hkind hcard
  | flex hfield hkind => exact .flex hfield hkind
  | nested hfield hleads hthing htunnel hfilter _ hkeyed ih =>
    rw [Column.tidy]
    refine .nested hfield hleads hthing htunnel (fun f hf => ?_) ?_ (hkeyed.tidyAll schema)
    · obtain ⟨g, hg, htidy⟩ := Option.bind_eq_some_iff.1 hf
      exact (Filter.columnwise_wellTyped schema).tidy? (hfilter g hg) htidy
    · rw [Column.tidyAll_eq_map]
      exact List.forall_mem_map.2 ih

theorem Plan.WellTyped.optimize {plan : Plan} (h : plan.WellTyped schema) : (plan.optimize schema).WellTyped schema := by
  obtain ⟨thing, hthing, hsource, hfilter, hcolumns, hkeyed⟩ := h
  have hname := Schema.name_of_thing? hthing
  have haccess := Schema.wellTyped_improveWith schema.wayWellTyped_follow (Schema.thing?_name hthing)
    ⟨hsource, hfilter⟩
  rw [hname] at haccess
  rw [Plan.optimize_eq]
  refine ⟨thing, hthing, haccess.1, haccess.2, ?_, hkeyed.tidyAll schema⟩
  dsimp only
  rw [Column.tidyAll_eq_map]
  exact List.forall_mem_map.2 fun c hc => (hcolumns c hc).tidy

/-- Over a sound schema whose things have fields with distinct names, accepted queries have well-typed plans, and better
plans stay well typed. -/
theorem Schema.wellTyped_plans (hvalid : schema.validate = .ok ()) (hdistinct : schema.DistinctFields) :
    (∀ metadata query plan, Plan.build schema metadata query = .ok plan → plan.WellTyped schema) ∧
      ∀ plan : Plan, plan.WellTyped schema → (plan.optimize schema).WellTyped schema :=
  ⟨fun _ _ _ h => Plan.wellTyped_of_build hvalid hdistinct h, fun _ h => h.optimize⟩

/-- The users whose name holds a letter, with one of two memberships and one of some level, by name. -/
def memberQuery : Query where
  thing := "User"
  options :=
    { filter := some (.object
        [("name", .object [("$contains", .string "d")]),
         ("members", .object [("$containsAny", .array [.string "m1", .string "m9"]), ("level", .string "gold")])])
      sort := [⟨"name", .ascending⟩] }
  selection := .only [.field "name", .nested "members" (some "levels") {} (.only [.field "level", .field "user"])]

/-- The plan of `memberQuery`. -/
def memberPlan : Plan where
  thing := "User"
  source := .scan ["User"]
  columns :=
    [.data "name" none,
     .nested ⟨"members", some "levels", "Member", none, none, .many, none, none, [], none⟩
       [.data "level" none, .reference "user" none .one none]]
  filter := some (.and
    [.scalar .contains "name" (.string "d"),
     .and
       [.ref .containsAny "members" ["m1", "m9"] (some ["Member"]) none,
        .nested "members" .many none (.scalar .eq "level" (.string "gold"))]])
  limit := none
  offset := none
  sort := [⟨"name", .ascending⟩]
  cardinality := .many

theorem Schema.wellTyped_plans_members :
    memberSchema.validate = .ok () ∧ memberSchema.DistinctFields ∧
      Plan.build memberSchema false memberQuery = .ok memberPlan ∧ memberPlan.WellTyped memberSchema ∧
      (memberPlan.optimize memberSchema).WellTyped memberSchema := by
  have hvalid : memberSchema.validate = .ok () := rfl
  have hdistinct : memberSchema.DistinctFields := by decide
  have hbuild : Plan.build memberSchema false memberQuery = .ok memberPlan := rfl
  obtain ⟨hbuilt, hoptimized⟩ := wellTyped_plans hvalid hdistinct
  have htyped := hbuilt false memberQuery memberPlan hbuild
  exact ⟨hvalid, hdistinct, hbuild, htyped, hoptimized memberPlan htyped⟩

end ThingQuery
