import ThingQuery.Proofs.ConsistentStore
import ThingQuery.Proofs.TypedPlan

/-!
# Better plans keep the same rows

On a consistent store a better way to the records of a thing leads to exactly those that satisfy the filter, and to each
of them once (`Store.Reaches`).  One search for a better way has this property if the ways that it starts from do
(`reaches_improveWith`): a lookup of keys and a start from the other end of a relationship select what the dropped part
of the filter selects, and the other parts are kept.  So a better plan keeps the same rows, in another order at most.
-/

namespace ThingQuery

/-- No table occurs twice among the tables of a thing. -/
def Schema.DistinctTables (schema : Schema) : Prop := ∀ thing ∈ schema.things.values, thing.variants.Nodup

instance (schema : Schema) : Decidable schema.DistinctTables :=
  inferInstanceAs (Decidable (∀ thing ∈ schema.things.values, thing.variants.Nodup))

/-- The value under a key is the given text exactly when the text is found there. -/
theorem Json.isSame_string_iff {actual : Option Json} {text : String} :
    Json.isSame actual (.string text) = true ↔ actual.bind Json.string? = some text := by
  cases actual with
  | none => simp [Json.isSame]
  | some v =>
    have hsame : ∀ a b : Json, (a == b) = a.same b := fun _ _ => rfl
    cases v <;> simp [Json.isSame, hsame, Json.same, Json.string?]

theorem Json.eq_map_of_mapM_string? {values : List Json} {texts : List String}
    (h : values.mapM Json.string? = some texts) : values = texts.map Json.string := by
  induction values generalizing texts with
  | nil =>
    cases h
    rfl
  | cons v rest ih =>
    rw [List.mapM_cons] at h
    obtain ⟨text, htext, h⟩ := Option.bind_eq_some_iff.1 h
    obtain ⟨texts', htexts, h⟩ := Option.bind_eq_some_iff.1 h
    cases h
    rw [ih htexts, List.map_cons]
    cases v <;> cases htext
    rfl

namespace Store

variable {store : Store} {schema : Schema} {thing : Thing}

/-- The way leads to the records of a thing that satisfy a filter, and to each of them once. -/
structure Reaches (store : Store) (thing : Thing) (filter : Filter) (access : Access) : Prop where
  nodup : (store.retain access.2 (store.sourceRows access.1)).Nodup
  /-- The records of the thing that satisfy the filter are reached. -/
  mem_iff : ∀ row, row ∈ store.retain access.2 (store.sourceRows access.1) ↔
    row ∈ store.thingRows thing ∧ store.satisfies filter row.record = true

theorem mem_retain_iff {filter : Option Filter} {rows : List Row} {row : Row} :
    row ∈ store.retain filter rows ↔ row ∈ rows ∧ ∀ f, filter = some f → store.satisfies f row.record = true := by
  cases filter with
  | none => simp [retain]
  | some f => simp [retain, List.mem_filter]

theorem Nodup.retain {filter : Option Filter} {rows : List Row} (h : rows.Nodup) : (store.retain filter rows).Nodup := by
  cases filter with
  | none => exact h
  | some f => exact h.filter _

/-! ### Lookups of keys -/

/-- A lookup of keys reaches the records that the predicate on the key selects. -/
theorem reaches_pointLookup? (hstore : store.Consistent schema) (htables : thing.variants.Nodup) {first : Filter}
    {source : Source} (h : Source.pointLookup? thing.variants first = some source) :
    store.Reaches thing first (source, none) := by
  rcases Source.pointLookup?_eq_some h with ⟨id, rfl, rfl⟩ | ⟨values, ids, rfl, hids, rfl⟩
  · refine ⟨nodup_pointer htables (List.nodup_singleton id), fun row => ?_⟩
    simp only [retain, hstore.mem_pointer_iff, mem_thingRows_iff, satisfies, ScalarOp.test, Json.isSame_string_iff,
      List.mem_singleton, exists_eq_left, Row.id?, and_assoc]
  · refine ⟨nodup_pointer htables (nodup_eraseDups ids), fun row => ?_⟩
    rw [Json.eq_map_of_mapM_string? hids]
    simp only [retain, hstore.mem_pointer_iff, mem_thingRows_iff, satisfies, ListOp.test, List.any_eq_true,
      List.mem_map, exists_exists_and_eq_and, List.mem_eraseDups, Json.isSame_string_iff, Row.id?, and_assoc]

/-! ### Starts from the other end of a relationship -/

/-- What a role or a link to a relation points to is a record of the thing at the other end. -/
theorem Consistent.mem_of_points (hstore : store.Consistent schema) {target : Thing} {name path : String}
    {field : Field} {opposite : Opposite} {row other : Row} (hthing : schema.thing? name = some thing)
    (hfield : thing.field? path = some field) (hkind : (field.kind.isRole || field.kind.isRelationLink) = true)
    (hopp : field.kind.opposite? = some opposite) (htarget : schema.thing? opposite.thing = some target)
    (hrow : row ∈ store.thingRows thing) (hpoints : store.Points row path other) :
    other ∈ store.thingRows target := by
  obtain ⟨text, htext, hresolve⟩ := hpoints
  obtain ⟨_, id, _, hsplit⟩ := resolve?_eq_some hresolve
  obtain ⟨found, hfound, hresolve'⟩ :=
    hstore.resolved hthing hfield hkind hopp htarget row hrow text htext (by rw [hsplit]; rfl)
  cases hresolve.symm.trans hresolve'
  exact hfound

section Traversal

variable {owner target : Thing} {name path : String} {field : Field} {opposite : Opposite}
  (hstore : store.Consistent schema) (howner : schema.thing? name = some owner)
  (htrav : schema.traversable? owner path = some (field, opposite))
  (htarget : schema.thing? opposite.thing = some target)

include hstore howner htrav htarget

/-- What the records of a thing point to along a relationship are records of the thing at the other end. -/
theorem mem_of_points_forth {row other : Row} (hrow : row ∈ store.thingRows owner)
    (hpoints : store.Points row path other) : other ∈ store.thingRows target := by
  obtain ⟨hfield, hfollow, hopp, backField, _, _, hback, _⟩ := Schema.traversable?_eq_some htrav
  have hkind := (Schema.isRole_or_isRelationLink_of_isTraversable hfollow hopp hback).1
  exact hstore.mem_of_points howner hfield hkind hopp htarget hrow hpoints

omit howner in
/-- What the records at the other end point back to are records of the thing. -/
theorem mem_of_points_back {row other : Row} (hother : other ∈ store.thingRows target)
    (hpoints : store.Points other opposite.path row) : row ∈ store.thingRows owner := by
  obtain ⟨_, hfollow, hopp, backField, back, pointed, hback, hoppback, hpointed, htables⟩ :=
    Schema.traversable?_eq_some htrav
  have hkind := (Schema.isRole_or_isRelationLink_of_isTraversable hfollow hopp hback).2
  rw [Schema.oppositeField?, htarget] at hback
  have hrow := hstore.mem_of_points htarget hback hkind hoppback hpointed hother hpoints
  rw [mem_thingRows_iff] at hrow ⊢
  obtain ⟨_, hsubset⟩ := Bool.and_eq_true_iff.1 htables
  exact ⟨by simpa using List.all_eq_true.1 hsubset _ hrow.1, hrow.2⟩

/-- Following a relationship back from selected records at the other end leads to the records that point to one of
them. -/
theorem mem_subquery_iff_points {start : Source} {rest : Option Filter} {selected : Row → Prop}
    (hstart : ∀ other, other ∈ store.retain rest (store.sourceRows start) ↔
      other ∈ store.thingRows target ∧ selected other) (row : Row) :
    row ∈ store.sourceRows (.subquery start opposite.path rest opposite.cardinality) ↔
      row ∈ store.thingRows owner ∧ ∃ other, store.Points row path other ∧ selected other := by
  simp only [mem_subquery_iff, hstart]
  constructor
  · rintro ⟨other, ⟨hother, hselected⟩, hpoints⟩
    have hrow := mem_of_points_back hstore htrav htarget hother hpoints
    exact ⟨hrow, other, (hstore.mirrored howner htrav htarget row hrow other hother).2 hpoints, hselected⟩
  · rintro ⟨hrow, other, hpoints, hselected⟩
    have hother := mem_of_points_forth hstore howner htrav htarget hrow hpoints
    exact ⟨other, ⟨hother, hselected⟩, (hstore.mirrored howner htrav htarget row hrow other hother).1 hpoints⟩

/-- A record satisfies a condition on related records when it points to one that satisfies it. -/
theorem reaches_nested {inner : Filter} {access : Access} (cardinality : Cardinality)
    (haccess : store.Reaches target inner access) :
    store.Reaches owner (.nested path cardinality none inner)
      (.subquery access.1 opposite.path access.2 opposite.cardinality, none) := by
  refine ⟨nodup_subquery _ _ _ opposite.cardinality, fun row => ?_⟩
  simp only [retain, mem_subquery_iff_points hstore howner htrav htarget haccess.mem_iff, satisfies,
    List.any_eq_true, mem_related_iff]

/-- A record satisfies a comparison with keys when it points to a record with one of them. -/
theorem reaches_reference {cardinality : Cardinality} {ids : List String} :
    store.Reaches owner (.ref (.positive cardinality) path ids (some target.variants) none)
      (.subquery (.pointer target.variants ids) opposite.path none opposite.cardinality, none) := by
  refine ⟨nodup_subquery _ _ _ opposite.cardinality, fun row => ?_⟩
  have hstart : ∀ other, other ∈ store.retain none (store.sourceRows (.pointer target.variants ids)) ↔
      other ∈ store.thingRows target ∧ ∃ id ∈ ids, other.id? = some id := by
    intro other
    simp only [retain, hstore.mem_pointer_iff, mem_thingRows_iff, and_assoc]
  have hpositive : ∀ hit, (ListOp.positive cardinality).testKeys hit ids = ids.any hit := by
    intro hit
    cases cardinality <;> rfl
  simp only [retain, mem_subquery_iff_points hstore howner htrav htarget hstart, satisfies, hpositive,
    List.any_eq_true, pointers]
  refine and_congr_right fun hrow => ?_
  constructor
  · -- the pointer is made of a table and the key of the record that it leads to
    rintro ⟨other, ⟨text, htext, hresolve⟩, id, hid, hkey⟩
    have hother := mem_of_points_forth hstore howner htrav htarget hrow ⟨text, htext, hresolve⟩
    obtain ⟨_, id', hid', hsplit⟩ := resolve?_eq_some hresolve
    cases hkey.symm.trans hid'
    refine ⟨id, hid, text, htext, ?_⟩
    simp [pointsTo, hsplit, (mem_thingRows_iff.1 hother).1]
  · rintro ⟨id, hid, text, htext, hpoints⟩
    unfold pointsTo at hpoints
    split at hpoints
    · rename_i table key hsplit
      obtain ⟨hfield, hfollow, hopp, backField, _, _, hback, _⟩ := Schema.traversable?_eq_some htrav
      have hkind := (Schema.isRole_or_isRelationLink_of_isTraversable hfollow hopp hback).1
      -- no pointer of such a field leads nowhere
      obtain ⟨other, _, hresolve⟩ :=
        hstore.resolved howner hfield hkind hopp htarget row hrow text htext (by rw [hsplit]; rfl)
      obtain ⟨_, id', hid', hsplit'⟩ := resolve?_eq_some hresolve
      cases hsplit.symm.trans hsplit'
      have hkey : key = id := eq_of_beq (Bool.and_eq_true_iff.1 hpoints).1
      exact ⟨other, ⟨text, htext, hresolve⟩, id, hid, hkey ▸ hid'⟩
    · cases hpoints

end Traversal

/-! ### Better ways -/

/-- The ways along relationships reach what they are asked for. -/
def WayReaches (store : Store) (schema : Schema) (way : Thing → Filter → Option Access) : Prop :=
  ∀ {target inner access}, schema.thing? target.name = some target → inner.WellTyped schema target →
    way target inner = some access → store.Reaches target inner access

variable {way : Thing → Filter → Option Access}

/-- A start from the other end of a relationship reaches the records that the predicate selects. -/
theorem reaches_traversal? (hstore : store.Consistent schema) (hway : store.WayReaches schema way) {first : Filter}
    {source : Source} (hthing : schema.thing? thing.name = some thing) (hfirst : first.WellTyped schema thing)
    (h : schema.traversal? way thing.name first = some source) : store.Reaches thing first (source, none) := by
  rcases Schema.traversal?_cases h with
    ⟨path, cardinality, inner, owner, field, opposite, target, start, rest, rfl, howner, htrav, htarget, hfollow, rfl⟩ |
    ⟨op, left, ids, tables, owner, field, opposite, rfl, howner, htrav, ⟨cardinality, _, rfl⟩, rfl⟩
  · cases hthing.symm.trans howner
    have hinner := hfirst.inner_of_traversable? htrav htarget
    exact reaches_nested hstore hthing htrav htarget cardinality (hway (Schema.thing?_name htarget) hinner hfollow)
  · cases hthing.symm.trans howner
    obtain ⟨target, htarget, rfl⟩ := hfirst.tables_of_traversable? htrav
    exact reaches_reference hstore hthing htrav htarget

/-- The parts of a conjunction that are left over are kept as a filter. -/
theorem mem_retain_rest_iff {rest : List Filter} {rows : List Row} {row : Row} :
    row ∈ store.retain (if rest.isEmpty then none else some (Filter.all rest)) rows ↔
      row ∈ rows ∧ ∀ f ∈ rest, store.satisfies f row.record = true := by
  rw [mem_retain_iff]
  cases rest with
  | nil => simp
  | cons f rest => simp only [List.isEmpty_cons, Bool.false_eq_true, if_false, Option.some.injEq, forall_eq',
      satisfies_all_iff]

/-- A better way to the records of a thing reaches those that satisfy the filter. -/
theorem reaches_improveWith (hstore : store.Consistent schema) (hway : store.WayReaches schema way)
    (htables : thing.variants.Nodup) (hthing : schema.thing? thing.name = some thing) {filter : Filter}
    (hfilter : filter.WellTyped schema thing) :
    store.Reaches thing filter (schema.improveWith way thing.name (.scan thing.variants) (some filter)) := by
  have htyped := Filter.columnwise_wellTyped schema
  have hscan := hstore.nodup_thingRows htables
  rcases schema.improveWith_cases way thing.name (.scan thing.variants) (some filter) with
    ⟨htruthy, he⟩ | ⟨f, hf, _, he, _⟩ | ⟨f, tables, start, access, hf, _, ht, hstart, hbetter, he⟩
  · rw [he]
    refine ⟨hscan, fun row => ?_⟩
    have hrow : store.satisfies filter row.record = true := by
      rw [← store.satisfies_normalize]
      exact store.satisfies_of_isTruthy row.record (htruthy filter rfl)
    simp [retain, thingRows, hrow]
  · cases hf
    rw [he]
    refine ⟨Nodup.retain hscan, fun row => ?_⟩
    simp [mem_retain_iff, thingRows, store.satisfies_reorderFor, store.satisfies_normalize]
  · cases hf
    cases ht
    have hnormal := htyped.normalize filter thing hfilter
    have hmeaning : start.WellTyped schema thing ∧
        ∀ record, store.satisfies filter record = store.satisfies start record := by
      rcases hstart with rfl | rfl
      · exact ⟨hnormal, fun record => (store.satisfies_normalize filter record).symm⟩
      · refine ⟨htyped.reorderFor schema thing.name hnormal, fun record => ?_⟩
        rw [store.satisfies_reorderFor, store.satisfies_normalize]
    obtain ⟨first, rest, hconj, hsource, hrest⟩ := Schema.improveScan?_eq_some hbetter
    -- the better way reaches what satisfies the first part, and the other parts are the filter that is left
    have hfirst : store.Reaches thing first (access.1, none) := by
      rcases hsource with hsource | hsource
      · exact reaches_pointLookup? hstore htables hsource
      · exact reaches_traversal? hstore hway hthing (htyped.conjuncts hmeaning.1 (by simp [hconj])) hsource
    rw [he]
    refine ⟨Nodup.retain hfirst.nodup, fun row => ?_⟩
    have hmem := hfirst.mem_iff row
    have hparts : store.satisfies start row.record = true ↔ _ := store.satisfies_iff_conjuncts row.record
    rw [hconj, List.forall_mem_cons] at hparts
    dsimp only [retain] at hmem
    rw [store.retain_tidy?, hrest, mem_retain_rest_iff, hmem, hmeaning.2, hparts, and_assoc]

theorem wayReaches_follow (hstore : store.Consistent schema) (htables : schema.DistinctTables) :
    store.WayReaches schema schema.follow := by
  intro target inner access htarget hinner h
  refine Schema.follow_induction (P := fun target inner access =>
    schema.thing? target.name = some target → inner.WellTyped schema target → store.Reaches target inner access)
    (fun way ih target inner htarget hinner => ?_) h htarget hinner
  exact reaches_improveWith hstore (fun htarget hinner h => ih _ _ _ h htarget hinner)
    (htables target (Schema.mem_values_of_thing? htarget)) htarget hinner

/-! ### Better plans -/

/-- Without a limit and an offset the same rows in another order are returned in another order at most. -/
theorem shape_perm {rows rows' : List Row} (h : rows'.Perm rows) (project : Row → List (String × Json))
    (columns : List Column) (sort : List SortKey) :
    (shape project columns sort none none rows').Perm (shape project columns sort none none rows) := by
  unfold shape window
  refine List.Perm.map _ ?_
  simp only [Option.getD_none, List.drop_zero]
  exact (List.mergeSort_perm _ _).trans ((h.map _).trans (List.mergeSort_perm _ _).symm)

/-- A better plan for an accepted query keeps the same rows, in another order at most. -/
theorem planRows_optimize_perm {metadata : Bool} {query : Query} {plan : Plan} (hvalid : schema.validate = .ok ())
    (htables : schema.DistinctTables) (hstore : store.Consistent schema)
    (h : Plan.build schema metadata query = .ok plan) :
    (store.planRows (plan.optimize schema)).Perm (store.planRows plan) := by
  obtain ⟨thing, columns, level, hthing, _, hlevel, rfl⟩ := Plan.build_eq_ok h
  have hname := Schema.thing?_name hthing
  have hnodup := htables thing (Schema.mem_values_of_thing? hthing)
  cases hids : level.ids with
  | some ids =>
    refine .of_eq (store.planRows_optimize_of_source_eq (Plan.source_optimize_of_ne_scan schema ?_))
    exact fun _ he => nomatch he
  | none =>
    cases hf : level.filter with
    | none => exact .of_eq (store.planRows_optimize_of_source_eq rfl)
    | some filter =>
      obtain ⟨v, _, hv⟩ := (Level.build_eq_ok hlevel).1 filter hf
      have hreaches := reaches_improveWith hstore (wayReaches_follow hstore htables) hnodup hname
        (Filter.wellTyped_of_ofJson hvalid v hname hv)
      rw [Plan.optimize_eq]
      refine (List.perm_ext_iff_of_nodup hreaches.nodup ?_).2 fun row => ?_
      · exact Nodup.retain (hstore.nodup_thingRows hnodup)
      · rw [hreaches.mem_iff]
        simp [planRows, mem_retain_iff, thingRows]

/-- On a consistent store a better plan for an accepted query keeps the same rows, in another order at most, and so a
plan for a list without a limit and an offset returns the same rows. -/
theorem execute_optimize_perm {metadata : Bool} {query : Query} {plan : Plan} (hvalid : schema.validate = .ok ())
    (htables : schema.DistinctTables) (hstore : store.Consistent schema)
    (h : Plan.build schema metadata query = .ok plan) :
    (store.planRows (plan.optimize schema)).Perm (store.planRows plan) ∧
      (plan.cardinality = .many → plan.limit = none → plan.offset = none →
        ∃ rows rows', store.execute plan = .array rows ∧ store.execute (plan.optimize schema) = .array rows' ∧
          rows'.Perm rows) := by
  have hperm := planRows_optimize_perm hvalid htables hstore h
  refine ⟨hperm, fun hmany hlimit hoffset => ?_⟩
  unfold execute
  rw [Plan.optimize_eq] at hperm ⊢
  dsimp only at hperm ⊢
  rw [shape_tidyAll schema (funext (store.projectRow_tidyAll schema plan.columns)), hmany, hlimit, hoffset]
  exact ⟨_, _, rfl, rfl, shape_perm hperm _ _ _⟩

/-- Ada, who has a membership. -/
def adaRow : Row :=
  ⟨"User", .object [("id", .string "u1"), ("name", .string "ada"), ("members", .array [.string "Member:m1"])]⟩

def bobRow : Row := ⟨"User", .object [("id", .string "u2"), ("name", .string "bob")]⟩

def goldRow : Row :=
  ⟨"Member", .object [("id", .string "m1"), ("level", .string "gold"), ("user", .string "User:u1")]⟩

/-- A store of users and memberships. -/
def memberStore : Store := .ofTables [("User", [adaRow.record, bobRow.record]), ("Member", [goldRow.record])]

/-- Memberships and users have one relationship each. -/
theorem relationships_memberSchema {name path : String} {thing : Thing} {field : Field} {opposite : Opposite}
    (hthing : memberSchema.thing? name = some thing) (hfield : thing.field? path = some field)
    (hopp : field.kind.opposite? = some opposite) :
    memberStore.thingRows thing = [goldRow] ∧ path = "user" ∧ opposite = ⟨"User", "members", .many⟩ ∨
      memberStore.thingRows thing = [adaRow, bobRow] ∧ path = "members" ∧ opposite = ⟨"Member", "user", .one⟩ := by
  obtain ⟨hmem, rfl⟩ := Thing.mem_of_field? hfield
  rcases List.mem_pair.1 (Schema.mem_values_of_thing? hthing) with rfl | rfl
  · rcases List.mem_cons.1 hmem with rfl | hmem
    · cases hopp
    · rcases List.mem_pair.1 hmem with rfl | rfl
      · cases hopp
      · cases hopp
        exact .inl ⟨rfl, rfl, rfl⟩
  · rcases List.mem_cons.1 hmem with rfl | hmem
    · cases hopp
    · rcases List.mem_pair.1 hmem with rfl | rfl
      · cases hopp
      · cases hopp
        exact .inr ⟨rfl, rfl, rfl⟩

theorem consistent_memberStore : memberStore.Consistent memberSchema := by
  have hmembers : ∀ row ∈ [adaRow, bobRow], ∀ other ∈ [goldRow],
      (memberStore.Points row "members" other ↔ memberStore.Points other "user" row) := by
    have hada : ∀ other, memberStore.Points adaRow "members" other ↔ other = goldRow :=
      fun other => mem_related_iff.symm.trans List.mem_singleton
    have hbob : ∀ other, ¬memberStore.Points bobRow "members" other :=
      fun other h => List.not_mem_nil (mem_related_iff.2 h)
    have hgold : ∀ other, memberStore.Points goldRow "user" other ↔ other = adaRow :=
      fun other => mem_related_iff.symm.trans List.mem_singleton
    have hne : bobRow ≠ adaRow := fun h => absurd (congrArg Row.id? h) (by decide)
    simp [hada, hbob, hgold, hne]
  refine ⟨by decide, by decide, ?_, ?_⟩
  · intro name path thing target field opposite hthing hfield _ hopp htarget row hrow text htext _
    rcases relationships_memberSchema hthing hfield hopp with ⟨hrows, rfl, rfl⟩ | ⟨hrows, rfl, rfl⟩
    · cases htarget
      rw [hrows, List.mem_singleton] at hrow
      cases hrow
      cases List.mem_singleton.1 htext
      exact ⟨adaRow, List.mem_cons_self, rfl⟩
    · cases htarget
      rw [hrows, List.mem_pair] at hrow
      rcases hrow with rfl | rfl
      · cases List.mem_singleton.1 htext
        exact ⟨goldRow, List.mem_cons_self, rfl⟩
      · cases htext
  · intro name path thing target field opposite hthing htrav htarget row hrow other hother
    obtain ⟨hfield, _, hopp, _⟩ := Schema.traversable?_eq_some htrav
    rcases relationships_memberSchema hthing hfield hopp with ⟨hrows, rfl, rfl⟩ | ⟨hrows, rfl, rfl⟩
    · cases htarget
      rw [hrows] at hrow
      exact (hmembers other hother row hrow).symm
    · cases htarget
      rw [hrows] at hrow
      exact hmembers row hrow other hother

theorem execute_optimize_perm_members :
    memberSchema.validate = .ok () ∧ memberSchema.DistinctTables ∧ memberStore.Consistent memberSchema ∧
      Plan.build memberSchema false memberQuery = .ok memberPlan ∧
      (memberStore.planRows (memberPlan.optimize memberSchema)).Perm (memberStore.planRows memberPlan) ∧
      ∃ rows rows', memberStore.execute memberPlan = .array rows ∧
        memberStore.execute (memberPlan.optimize memberSchema) = .array rows' ∧ rows'.Perm rows := by
  have hvalid : memberSchema.validate = .ok () := rfl
  have htables : memberSchema.DistinctTables := by decide
  have hbuild : Plan.build memberSchema false memberQuery = .ok memberPlan := rfl
  obtain ⟨hrows, hexecute⟩ := execute_optimize_perm hvalid htables consistent_memberStore hbuild
  exact ⟨hvalid, htables, consistent_memberStore, hbuild, hrows, hexecute rfl rfl rfl⟩

end Store

end ThingQuery
