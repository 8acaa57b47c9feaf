import ThingQuery.Proofs.Typing

/-!
# Things behind the root are declared

In a sound schema a query can name an undeclared thing only at its root: links and roles lead to declared things, at any
depth of its filters (`Filter.resolves_ofJson`) and of its selections (`Selection.aimed_columns`).  So the keys that a
link or a role is compared with are looked for in the tables of the thing at its other end, and never in a table of a
name that stands for no thing (`Filter.Aimed`).
-/

namespace ThingQuery

/-! ### Checks that meet no undeclared thing -/

/-- The check does not end at a name that no thing has, and its result has the property. -/
def Resolves {α : Type} (P : α → Prop) : Except PlanError α → Prop
  | .ok a => P a
  | .error e => ∀ name, e ≠ .unknownThing name

namespace Resolves

variable {α β : Type} {P : α → Prop} {Q : β → Prop} {x : Except PlanError α}

theorem bind {f : α → Except PlanError β} (hx : Resolves P x) (hf : ∀ a, P a → Resolves Q (f a)) :
    Resolves Q (x >>= f) := by
  cases x with
  | error e => exact hx
  | ok a => exact hf a hx

theorem map {f : α → β} (hx : Resolves P x) (hf : ∀ a, P a → Q (f a)) : Resolves Q (x.map f) := by
  cases x with
  | error e => exact hx
  | ok a => exact hf a hx

theorem mono {P' : α → Prop} (hx : Resolves P x) (h : ∀ a, x = .ok a → P a → P' a) : Resolves P' x := by
  cases x with
  | error e => exact hx
  | ok a => exact h a rfl hx

theorem mapM {f : β → Except PlanError α} (h : ∀ b, Resolves P (f b)) (bs : List β) :
    Resolves (fun _ => True) (bs.mapM f) := by
  induction bs with
  | nil => trivial
  | cons b bs ih =>
    rw [List.mapM_cons]
    exact (h b).bind fun _ _ => ih.bind fun _ _ => trivial

end Resolves

/-! ### Filters -/

namespace Filter

variable {schema : Schema} {thing : Thing}

theorem resolves_idsOf (field : String) (v : Json) : Resolves (fun _ => True) (idsOf field v) := by
  unfold idsOf
  split
  · trivial
  · split
    · trivial
    · exact nofun
  · exact nofun

theorem resolves_existence (field : String) (tunnel : Option String) (v : Json) :
    Resolves (fun _ => True) (existence field tunnel v) := by
  unfold existence
  split
  · trivial
  · trivial
  · exact nofun

theorem resolves_dataOperator (left op : String) (operand : Json) :
    Resolves (fun _ => True) (dataOperator left op operand) := by
  unfold dataOperator
  split
  · exact resolves_existence left none operand
  · split
    · split
      · split
        · trivial
        · trivial
        · exact nofun
      · trivial
    · split
      · split
        · trivial
        · exact nofun
      · split <;> exact nofun

theorem resolves_ofData (left : String) (cardinality : Cardinality) (v : Json) :
    Resolves (fun _ => True) (ofData left cardinality v) := by
  unfold ofData
  split
  · trivial
  · trivial
  · exact nofun
  · exact (Resolves.mapM (fun _ => resolves_dataOperator left _ _) _).map fun _ _ => trivial
  · trivial

theorem resolves_ofReference (left : String) (cardinality : Cardinality) (v : Json) :
    Resolves (fun _ => True) (ofReference left cardinality v) := by
  unfold ofReference
  split
  · trivial
  · exact (resolves_idsOf left v).map fun _ _ => trivial

theorem Relationship.resolves_operator (rel : Relationship) (op : String) (operand : Json) :
    Resolves (fun _ => True) (rel.operator op operand) := by
  have hids : ∀ g : List String → Option Filter, Resolves (fun _ => True) ((idsOf rel.name operand).map g) :=
    fun _ => (resolves_idsOf rel.name operand).map fun _ _ => trivial
  unfold operator
  split
  · exact (resolves_existence rel.name rel.tunnel operand).map fun _ _ => trivial
  · split
    · split
      · trivial
      · exact hids _
    · split
      · trivial
      · exact hids _
    · exact hids _
    · exact hids _
    · exact nofun
    · exact nofun
    · exact nofun
    · exact nofun
    · split
      · exact hids _
      · trivial

theorem Relationship.resolves_operators (rel : Relationship) (members : List (String × Json)) :
    Resolves (fun _ => True) (rel.operators members) :=
  (Resolves.mapM (fun _ => rel.resolves_operator _ _) members).map fun _ _ => trivial

theorem resolves_subject (schema : Schema) (thing : Thing) (key : String) :
    Resolves (fun s => subject schema thing key = .ok s) (subject schema thing key) := by
  refine Resolves.mono (P := fun _ => True) ?_ fun _ hs _ => hs
  unfold subject
  split
  · trivial
  · split
    · trivial
    · split
      · trivial
      · split
        · exact nofun
        · split
          · exact nofun
          · split
            · exact nofun
            · exact nofun
            · trivial
            · exact nofun
            · trivial
            · trivial
            · trivial

theorem resolves_targetThing {name : String} {target : Thing} (h : schema.thing? name = some target) :
    Resolves (· = target) (targetThing schema name) := by
  unfold targetThing
  rw [h]
  rfl

mutual

/-- Reading a filter meets no undeclared thing. -/
theorem resolves_ofJson (hvalid : schema.validate = .ok ()) (v : Json) :
    ∀ {thing}, schema.thing? thing.name = some thing → Resolves (fun _ => True) (ofJson schema thing v) := by
  intro thing hthing
  match v with
  | .object members =>
    rw [ofJson]
    exact (resolves_ofMembers hvalid members hthing).map fun _ _ => trivial
  | .array items =>
    rw [ofJson]
    exact (resolves_ofItems hvalid items hthing).map fun _ _ => trivial
  | .null | .bool _ | .number _ | .string _ =>
    rw [ofJson]
    · exact nofun
    all_goals simp

theorem resolves_ofItems (hvalid : schema.validate = .ok ()) (items : List Json) :
    ∀ {thing}, schema.thing? thing.name = some thing → Resolves (fun _ => True) (ofItems schema thing items) := by
  intro thing hthing
  match items with
  | [] => trivial
  | v :: rest =>
    rw [ofItems]
    exact (resolves_ofJson hvalid v hthing).bind fun _ _ =>
      (resolves_ofItems hvalid rest hthing).bind fun _ _ => trivial

theorem resolves_ofMembers (hvalid : schema.validate = .ok ()) (members : List (String × Json)) :
    ∀ {thing}, schema.thing? thing.name = some thing → Resolves (fun _ => True) (ofMembers schema thing members) := by
  intro thing hthing
  match members with
  | [] => trivial
  | (key, v) :: rest =>
    rw [ofMembers]
    exact (resolves_ofMember hvalid key v hthing).bind fun _ _ =>
      (resolves_ofMembers hvalid rest hthing).bind fun _ _ => trivial

theorem resolves_ofLeftovers (hvalid : schema.validate = .ok ()) (members : List (String × Json)) :
    ∀ {thing}, schema.thing? thing.name = some thing → Resolves (fun _ => True) (ofLeftovers schema thing members) := by
  intro thing hthing
  match members with
  | [] => trivial
  | (key, v) :: rest =>
    rw [ofLeftovers]
    split
    · exact resolves_ofLeftovers hvalid rest hthing
    · exact (resolves_ofMember hvalid key v hthing).bind fun _ _ =>
        (resolves_ofLeftovers hvalid rest hthing).bind fun _ _ => trivial

theorem resolves_ofMember (hvalid : schema.validate = .ok ()) (key : String) (v : Json) :
    ∀ {thing}, schema.thing? thing.name = some thing → Resolves (fun _ => True) (ofMember schema thing key v) := by
  intro thing hthing
  rw [ofMember.eq_def]
  refine (resolves_subject schema thing key).bind fun s hs => ?_
  cases s with
  | data left cardinality => exact resolves_ofData left cardinality v
  | reference left cardinality => exact resolves_ofReference left cardinality v
  | disjunction | conjunction | negation =>
    match v with
    | .object members => exact (resolves_ofMembers hvalid members hthing).map fun _ _ => trivial
    | .array items => exact (resolves_ofItems hvalid items hthing).map fun _ _ => trivial
    | .null | .bool _ | .number _ | .string _ => exact nofun
  | relationship rel =>
    obtain ⟨field, target, hrel⟩ := exists_fits_of_subject hvalid hthing hs
    match v with
    | .null => trivial
    | .string id => trivial
    | .array items => exact (resolves_idsOf rel.name (.array items)).map fun _ _ => trivial
    | .object members =>
      dsimp only
      split
      · exact nofun
      · refine (rel.resolves_operators members).bind fun parts _ => ?_
        split
        · trivial
        · refine (resolves_targetThing hrel.found).bind fun target' htarget => ?_
          cases htarget
          exact (resolves_ofLeftovers hvalid members (Schema.thing?_name hrel.found)).bind fun _ _ => trivial
    | .bool _ | .number _ => exact nofun

end

/-! ### Where keys are looked for -/

/-- Wherever the pointers of a link or a role are compared with keys, at any depth of the filter, the keys are looked
for in the tables of the declared thing at its other end. -/
inductive Aimed (schema : Schema) : Thing → Filter → Prop where
  | scalar {thing : Thing} {op : ScalarOp} {left : String} {right : Json} : Aimed schema thing (.scalar op left right)
  | list {thing : Thing} {op : ListOp} {left : String} {right : List Json} : Aimed schema thing (.list op left right)
  /-- A link or a role leads to a declared thing, whose tables are searched. -/
  | ref {thing : Thing} {op : ListOp} {left : String} {ids : List String} {tables : Option (List String)}
    {tunnel : Option String} {field : Field} (hfield : thing.field? left = some field)
    (htables : field.kind.isRelational = true →
      ∃ target, field.LeadsTo schema target ∧ tables = some target.variants) :
    Aimed schema thing (.ref op left ids tables tunnel)
  | null {thing : Thing} {op : NullOp} {left : String} {tunnel : Option String} :
    Aimed schema thing (.null op left tunnel)
  | and {thing : Thing} {children : List Filter} (h : ∀ f ∈ children, Aimed schema thing f) :
    Aimed schema thing (.and children)
  | or {thing : Thing} {children : List Filter} (h : ∀ f ∈ children, Aimed schema thing f) :
    Aimed schema thing (.or children)
  | not {thing : Thing} {child : Filter} (h : Aimed schema thing child) : Aimed schema thing (.not child)
  /-- A condition on related records is about the declared thing at the other end. -/
  | nested {thing target : Thing} {path : String} {cardinality : Cardinality} {tunnel : Option String}
    {inner : Filter} {field : Field} (hfield : thing.field? path = some field) (hleads : field.LeadsTo schema target)
    (h : Aimed schema target inner) : Aimed schema thing (.nested path cardinality tunnel inner)
  | falsy {thing : Thing} : Aimed schema thing .falsy

theorem WellTyped.aimed {f : Filter} (h : f.WellTyped schema thing) : f.Aimed schema thing := by
  induction h with
  | scalar => exact .scalar
  | list => exact .list
  | reference hfield hkind =>
    refine .ref hfield fun hrelational => ?_
    -- a reference field is neither a link nor a role
    rw [hkind] at hrelational
    cases hrelational
  | relationship hfield hleads => exact .ref hfield fun _ => ⟨_, hleads, rfl⟩
  | nullKey => exact .null
  | null => exact .null
  | and _ ih => exact .and ih
  | or _ ih => exact .or ih
  | not _ ih => exact .not ih
  | nested hfield hleads _ ih => exact .nested hfield hleads ih
  | falsy => exact .falsy

theorem aimed_ofJson (hvalid : schema.validate = .ok ()) (hthing : schema.thing? thing.name = some thing) (v : Json) :
    Resolves (·.Aimed schema thing) (ofJson schema thing v) :=
  (resolves_ofJson hvalid v hthing).mono fun _ hf _ => (wellTyped_of_ofJson hvalid v hthing hf).aimed

end Filter

/-! ### Selections -/

variable {schema : Schema} {metadata : Bool} {thing : Thing}

/-- The filters of nested columns, at any depth, are aimed at declared things. -/
inductive Column.Aimed (schema : Schema) : Thing → Column → Prop where
  /-- Only nested columns have filters. -/
  | flat {thing : Thing} {column : Column} (h : ∀ scope columns, column ≠ .nested scope columns) :
    Aimed schema thing column
  /-- A nested column is about the declared thing at the other end of its field. -/
  | nested {thing target : Thing} {scope : NestedScope} {columns : List Column} {field : Field}
    (hfield : thing.field? scope.path = some field) (hleads : field.LeadsTo schema target)
    (hthing : scope.thing = target.name) (hfilter : ∀ f, scope.filter = some f → f.Aimed schema target)
    (hcolumns : ∀ c ∈ columns, Aimed schema target c) : Aimed schema thing (.nested scope columns)

theorem Thing.resolves_getField (thing : Thing) (name : String) :
    Resolves (fun field => thing.field? name = some field) (thing.getField name) := by
  unfold Thing.getField
  split
  · assumption
  · exact nofun

theorem resolves_checkExcluded (thing : Thing) (excluded : List String) :
    Resolves (fun _ => True) (checkExcluded thing excluded) := by
  unfold checkExcluded
  split
  · exact nofun
  · trivial

theorem resolves_validateSort (sort : List SortKey) (columns : List Column) :
    Resolves (fun _ => True) (validateSort sort columns) := by
  unfold validateSort
  split
  · exact nofun
  · trivial

theorem Page.resolves_parse (limit offset : Option Json) : Resolves (fun _ => True) (parse limit offset) := by
  cases h : parse limit offset with
  | ok page => trivial
  | error e =>
    rintro name rfl
    have hcode : "BQL_SCHEMA_MISMATCH" = "BQL_INVALID_PAGINATION" := code_of_parse h
    exact absurd hcode (by decide)

theorem Field.aimed_column? {field : Field} {column : Column} (h : field.column? thing = some column) :
    column.Aimed schema thing := by
  refine .flat fun scope columns he => ?_
  subst he
  unfold Field.column? at h
  split at h
  · cases h
  · cases h
  · split at h <;> cases h
  · cases h
  · cases h
  · cases h
  · cases h

theorem aimed_distinctColumns {columns : List Column} (h : ∀ c ∈ columns, c.Aimed schema thing) :
    Resolves (fun all => ∀ c ∈ all, c.Aimed schema thing) (distinctColumns metadata columns) := by
  have hmetadata : ∀ field, Column.Aimed schema thing (.metadata field none) := by
    intro field
    refine .flat fun scope columns he => ?_
    cases he
  unfold distinctColumns
  dsimp only
  split
  · exact nofun
  · refine List.forall_mem_append.2 ⟨?_, h⟩
    unfold metadataColumns
    split
    · exact List.forall_mem_cons.2 ⟨hmetadata .thing, List.forall_mem_singleton.2 (hmetadata .id)⟩
    · simp

theorem Level.aimed_build (hvalid : schema.validate = .ok ()) (hthing : schema.thing? thing.name = some thing)
    (options : Options) (columns : List Column) :
    Resolves (fun level => ∀ f, level.filter = some f → f.Aimed schema thing)
      (Level.build schema thing options columns) := by
  have hbuilt : Resolves (fun built => ∀ f, built = some f → f.Aimed schema thing)
      (builtFilter schema thing options.filter) := by
    unfold builtFilter
    split
    · refine (Filter.aimed_ofJson hvalid hthing _).map fun f hf g hg => ?_
      cases hg
      exact hf
    · exact nofun
  rw [build_eq]
  refine hbuilt.bind fun built hfilter => ?_
  refine (Page.resolves_parse options.limit options.offset).bind fun page _ => ?_
  refine (resolves_validateSort options.sort columns).bind fun _ _ => ?_
  exact fun f hf => hfilter f (Option.filter_eq_some_iff.1 hf).1

mutual

/-- Selecting columns meets no undeclared thing. -/
theorem Selection.aimed_columns (hvalid : schema.validate = .ok ()) (selection : Selection) :
    ∀ {thing}, schema.thing? thing.name = some thing → ∀ excluded,
      Resolves (fun columns => ∀ c ∈ columns, c.Aimed schema thing)
        (selection.columns schema metadata thing excluded) := by
  intro thing hthing excluded
  match selection with
  | .all =>
    rw [Selection.columns]
    refine (resolves_checkExcluded thing excluded).bind fun _ _ => aimed_distinctColumns fun c hc => ?_
    obtain ⟨field, _, hcolumn⟩ := List.mem_filterMap.1 hc
    exact Field.aimed_column? hcolumn
  | .only selectors =>
    rw [Selection.columns]
    refine (resolves_checkExcluded thing excluded).bind fun _ _ => ?_
    exact (Selector.aimed_listColumns hvalid selectors hthing excluded).bind fun _ hcolumns =>
      aimed_distinctColumns hcolumns

theorem Selector.aimed_listColumns (hvalid : schema.validate = .ok ()) (selectors : List Selector) :
    ∀ {thing}, schema.thing? thing.name = some thing → ∀ excluded,
      Resolves (fun columns => ∀ c ∈ columns, c.Aimed schema thing)
        (Selector.listColumns schema metadata thing excluded selectors) := by
  intro thing hthing excluded
  match selectors with
  | [] => exact List.forall_mem_nil _
  | selector :: rest =>
    rw [Selector.listColumns]
    split
    · exact Selector.aimed_listColumns hvalid rest hthing excluded
    · refine (Selector.aimed_column? hvalid selector hthing).bind fun column hcolumn => ?_
      refine (Selector.aimed_listColumns hvalid rest hthing excluded).bind fun columns hcolumns => ?_
      exact List.forall_mem_append.2 ⟨fun c hc => hcolumn c (Option.mem_toList.1 hc), hcolumns⟩

theorem Selector.aimed_column? (hvalid : schema.validate = .ok ()) (selector : Selector) :
    ∀ {thing}, schema.thing? thing.name = some thing →
      Resolves (fun column => ∀ c ∈ column, c.Aimed schema thing) (selector.column? schema metadata thing) := by
  intro thing hthing
  match selector with
  | .field name =>
    rw [Selector.column?]
    exact (thing.resolves_getField name).bind fun _ _ => fun _ hcolumn => Field.aimed_column? hcolumn
  | .nested path label options selection =>
    rw [Selector.column?]
    refine (thing.resolves_getField path).bind fun field hfield => ?_
    split
    · rename_i hcard hopp
      obtain ⟨target, htarget⟩ := Schema.exists_thing?_of_validate hvalid hthing hfield hopp
      have hself := Schema.thing?_name htarget
      refine (Filter.resolves_targetThing htarget).bind fun target' heq => ?_
      cases heq
      refine (Selection.aimed_columns hvalid selection hself options.excluded).bind fun columns hcolumns => ?_
      refine (Level.aimed_build hvalid hself options columns).bind fun level hfilter => ?_
      rintro c ⟨⟩
      exact .nested hfield ⟨_, hopp, htarget⟩ rfl hfilter hcolumns
    · exact nofun

end

/-! ### Plans -/

/-- All filters of a plan for the thing are aimed at declared things. -/
structure Plan.AimedFrom (schema : Schema) (thing : Thing) (plan : Plan) : Prop where
  filter : ∀ f, plan.filter = some f → f.Aimed schema thing
  columns : ∀ c ∈ plan.columns, c.Aimed schema thing

theorem Plan.aimedFrom_build (metadata : Bool) (hvalid : schema.validate = .ok ()) {query : Query}
    (hthing : schema.thing? query.thing = some thing) :
    Resolves (·.AimedFrom schema thing) (Plan.build schema metadata query) := by
  have hself := Schema.thing?_name hthing
  refine (Filter.resolves_targetThing hthing).bind fun thing' heq => ?_
  cases heq
  refine (query.selection.aimed_columns hvalid hself query.options.excluded).bind fun columns hcolumns => ?_
  refine (Level.aimed_build hvalid hself query.options columns).bind fun level hfilter => ?_
  exact ⟨hfilter, hcolumns⟩

/-- A schema is accepted exactly when all names in it lead somewhere.  Over such a schema a query is refused for an
undeclared thing exactly when its root names one, and the plan of an accepted query looks for the keys of links and
roles in the tables of the declared things at their other ends. -/
theorem Schema.validate_iff_and_lookups (schema : Schema) :
    (schema.validate = .ok () ↔ ∀ thing ∈ schema.things.values, thing.Sound schema) ∧
    (schema.validate = .ok () → ∀ (metadata : Bool) (query : Query),
      (∀ name, Plan.build schema metadata query = .error (.unknownThing name) ↔
        schema.thing? query.thing = none ∧ query.thing = name) ∧
      ∀ plan, Plan.build schema metadata query = .ok plan →
        ∃ thing, schema.thing? query.thing = some thing ∧ plan.AimedFrom schema thing) := by
  refine ⟨validate_eq_ok_iff, fun hvalid metadata query => ?_⟩
  cases hthing : schema.thing? query.thing with
  | none =>
    have hbuild : Plan.build schema metadata query = .error (.unknownThing query.thing) := by
      simp only [Plan.build, Filter.targetThing, hthing]
      rfl
    rw [hbuild]
    exact ⟨by simp, nofun⟩
  | some thing =>
    have hresolves := Plan.aimedFrom_build metadata hvalid hthing
    cases hbuild : Plan.build schema metadata query with
    | error e =>
      rw [hbuild] at hresolves
      have hknown : ∀ name, e ≠ .unknownThing name := hresolves
      exact ⟨by simpa using hknown, nofun⟩
    | ok plan =>
      rw [hbuild] at hresolves
      refine ⟨by simp, fun plan' heq => ?_⟩
      cases heq
      exact ⟨thing, rfl, hresolves⟩

/-- The users with a membership whose user has a given membership, each with the memberships of a given user. -/
def roundQuery : Query where
  thing := "User"
  options := { filter := some (.object [("members", .object [("user", .object [("members", .string "m1")])])]) }
  selection := .only
    [.nested "members" none { filter := some (.object [("user", .array [.string "u1", .string "u2"])]) }
      (.only [.field "level"])]

/-- The plan of `roundQuery`. -/
def roundPlan : Plan where
  thing := "User"
  source := .scan ["User"]
  columns :=
    [.nested ⟨"members", none, "Member", none, some (.ref .isIn "user" ["u1", "u2"] (some ["User"]) none), .many, none,
      none, [], none⟩ [.data "level" none]]
  filter := some (.nested "members" .many none
    (.nested "user" .one none (.ref .containsAny "members" ["m1"] (some ["Member"]) none)))
  limit := none
  offset := none
  sort := []
  cardinality := .many

theorem Schema.validate_iff_and_lookups_round :
    memberSchema.validate = .ok () ∧ Plan.build memberSchema false roundQuery = .ok roundPlan ∧
      roundPlan.AimedFrom memberSchema userThing ∧
      Plan.build memberSchema false { roundQuery with thing := "Account" } = .error (.unknownThing "Account") := by
  have hvalid : memberSchema.validate = .ok () := rfl
  have hbuild : Plan.build memberSchema false roundQuery = .ok roundPlan := rfl
  have hlookups := (validate_iff_and_lookups memberSchema).2 hvalid false
  obtain ⟨thing, hthing, haimed⟩ := (hlookups roundQuery).2 roundPlan hbuild
  cases hthing
  exact ⟨hvalid, hbuild, haimed, ((hlookups { roundQuery with thing := "Account" }).1 "Account").2 ⟨rfl, rfl⟩⟩

end ThingQuery
