import ThingQuery.Plan.Build

/-!
# What an accepted query says

A query is checked in steps, each of which may refuse it.  For every step there is one statement of what is known once
it has succeeded, down to the plan as a whole (`Plan.build_eq_ok`).
-/

namespace ThingQuery

/-! ### Checks in a row -/

theorem ok_of_bind {ε α β : Type} {x : Except ε α} {f : α → Except ε β} {b : β} (h : x >>= f = .ok b) :
    ∃ a, x = .ok a ∧ f a = .ok b := by
  cases x with
  | error e => cases h
  | ok a => exact ⟨a, rfl, h⟩

theorem ok_of_map {ε α β : Type} {x : Except ε α} {f : α → β} {b : β} (h : x.map f = .ok b) :
    ∃ a, x = .ok a ∧ f a = b := by
  cases x with
  | error e => cases h
  | ok a =>
    cases h
    exact ⟨a, rfl, rfl⟩

/-- Every result of a list of checks is the result of one of them. -/
theorem ok_of_mem_mapM {ε α β : Type} {f : α → Except ε β} {as : List α} {bs : List β} (h : as.mapM f = .ok bs) :
    ∀ b ∈ bs, ∃ a ∈ as, f a = .ok b := by
  induction as generalizing bs with
  | nil =>
    cases h
    simp
  | cons a as ih =>
    rw [List.mapM_cons] at h
    obtain ⟨b, hb, h⟩ := ok_of_bind h
    obtain ⟨bs', hbs, h⟩ := ok_of_bind h
    cases h
    intro c hc
    rcases List.mem_cons.1 hc with rfl | hc
    · exact ⟨a, List.mem_cons_self, hb⟩
    · obtain ⟨a', ha', hfa⟩ := ih hbs c hc
      exact ⟨a', List.mem_cons_of_mem _ ha', hfa⟩

/-! ### Lookups -/

theorem thing?_of_targetThing {schema : Schema} {name : String} {thing : Thing}
    (h : Filter.targetThing schema name = .ok thing) : schema.thing? name = some thing := by
  unfold Filter.targetThing at h
  split at h
  · cases h
    assumption
  · cases h

theorem field?_of_getField {thing : Thing} {name : String} {field : Field} (h : thing.getField name = .ok field) :
    thing.field? name = some field := by
  unfold Thing.getField at h
  split at h
  · cases h
    assumption
  · cases h

/-! ### Filters -/

namespace Filter

/-- What is known of a member of a filter object when it is about something. -/
inductive SubjectOf (schema : Schema) (thing : Thing) (key : String) : Subject → Prop where
  /-- The disjunction has a key of its own. -/
  | disjunction : SubjectOf schema thing key .disjunction
  /-- The conjunction has a key of its own. -/
  | conjunction : SubjectOf schema thing key .conjunction
  /-- The negation has a key of its own. -/
  | negation : SubjectOf schema thing key .negation
  /-- A data field is filtered by its own column, or by the key column if it holds the key. -/
  | data {field : Field} {content : DataContent} {cardinality : Cardinality} {unique : Bool}
    (hfield : thing.field? key = some field) (hkind : field.kind = .data content cardinality unique) :
    SubjectOf schema thing key (.data (if thing.isIdField key then idColumn else key) cardinality)
  /-- A reference field is filtered by its own column. -/
  | reference {field : Field} {cardinality : Cardinality} (hfield : thing.field? key = some field)
    (hkind : field.kind = .ref .ref cardinality) : SubjectOf schema thing key (.reference key cardinality)
  /-- A link or a role is filtered by its pointers, in the tables of the thing at its other end. -/
  | relationship {field : Field} {cardinality : Cardinality} {opposite : Opposite}
    (hfield : thing.field? key = some field) (hopp : field.kind.opposite? = some opposite)
    (hcard : field.kind.cardinality? = some cardinality) :
    SubjectOf schema thing key (.relationship ⟨key, cardinality, opposite.thing,
      match schema.thing? opposite.thing with
      | some target => target.variants
      | none => [opposite.thing], field.tunnel?⟩)

theorem subjectOf_of_subject {schema : Schema} {thing : Thing} {key : String} {s : Subject}
    (h : subject schema thing key = .ok s) : SubjectOf schema thing key s := by
  unfold subject at h
  split at h
  · cases h
    exact .disjunction
  · split at h
    · cases h
      exact .conjunction
    · split at h
      · cases h
        exact .negation
      · split at h
        · cases h
        · split at h
          · cases h
          · rename_i field hfield
            have hname : field.name = key := by simpa using List.find?_some hfield
            split at h
            · cases h
            · cases h
            · rename_i hkind
              cases h
              exact .data hfield hkind
            · cases h
            · rename_i hkind
              cases h
              exact .reference hfield hkind
            · rename_i hkind
              cases h
              rw [hname]
              exact .relationship hfield (by rw [hkind]; rfl) (by rw [hkind]; rfl)
            · rename_i hkind
              cases h
              rw [hname]
              exact .relationship hfield (by rw [hkind]; rfl) (by rw [hkind]; rfl)

end Filter

/-! ### Levels and plans -/

namespace Level

/-- The filter of a level, if there is one. -/
def builtFilter (schema : Schema) (thing : Thing) (filter : Option Json) : Except PlanError (Option Filter) :=
  match filter with
  | some v => (Filter.ofJson schema thing v).map some
  | none => .ok none

/-- The level of options whose filter is built. -/
def ofFilter (thing : Thing) (options : Options) (columns : List Column) (built : Option Filter) :
    Except PlanError Level := do
  let filter := built.filter (!·.isTruthy)
  let page ← Page.parse options.limit options.offset
  validateSort options.sort columns
  pure
    { ids := options.id.map IdSelector.ids
      filter
      page
      sort := options.sort
      cardinality :=
        if (options.id.bind IdSelector.single?).isSome || filter.any (Filter.pinsUnique thing) then .one else .many }

theorem build_eq (schema : Schema) (thing : Thing) (options : Options) (columns : List Column) :
    Level.build schema thing options columns =
      builtFilter schema thing options.filter >>= ofFilter thing options columns := by
  unfold Level.build builtFilter
  cases options.filter <;> rfl

end Level

/-- What is known of an accepted level: its filter is what the given value describes, unless that always holds, and
every sort key names a column. -/
theorem Level.build_eq_ok {schema : Schema} {thing : Thing} {options : Options} {columns : List Column} {level : Level}
    (h : Level.build schema thing options columns = .ok level) :
    (∀ f, level.filter = some f → ∃ v, options.filter = some v ∧ Filter.ofJson schema thing v = .ok f) ∧
      validateSort options.sort columns = .ok () ∧ level.sort = options.sort ∧
      level.ids = options.id.map IdSelector.ids := by
  unfold Level.build at h
  cases hv : options.filter with
  | none =>
    rw [hv] at h
    obtain ⟨built, hbuilt, h⟩ := ok_of_bind h
    cases hbuilt
    obtain ⟨page, _, h⟩ := ok_of_bind h
    obtain ⟨⟨⟩, hsort, h⟩ := ok_of_bind h
    cases h
    exact ⟨by simp, hsort, rfl, rfl⟩
  | some v =>
    rw [hv] at h
    obtain ⟨built, hbuilt, h⟩ := ok_of_bind h
    obtain ⟨f, hf, rfl⟩ := ok_of_map hbuilt
    obtain ⟨page, _, h⟩ := ok_of_bind h
    obtain ⟨⟨⟩, hsort, h⟩ := ok_of_bind h
    cases h
    refine ⟨fun g hg => ?_, hsort, rfl, rfl⟩
    dsimp only at hg
    cases (Option.filter_eq_some_iff.1 hg).1
    exact ⟨v, rfl, hf⟩

theorem Plan.build_eq_ok {schema : Schema} {metadata : Bool} {query : Query} {plan : Plan}
    (h : Plan.build schema metadata query = .ok plan) :
    ∃ thing columns level, schema.thing? query.thing = some thing ∧
      query.selection.columns schema metadata thing query.options.excluded = .ok columns ∧
      Level.build schema thing query.options columns = .ok level ∧
      plan = { thing := thing.name
               source := match level.ids with
                 | some ids => .pointer thing.variants ids
                 | none => .scan thing.variants
               columns
               filter := level.filter
               limit := level.page.limit
               offset := level.page.offset
               sort := level.sort
               cardinality := level.cardinality } := by
  unfold Plan.build at h
  obtain ⟨thing, hthing, h⟩ := ok_of_bind h
  obtain ⟨columns, hcolumns, h⟩ := ok_of_bind h
  obtain ⟨level, hlevel, h⟩ := ok_of_bind h
  cases h
  exact ⟨thing, columns, level, thing?_of_targetThing hthing, hcolumns, hlevel, rfl⟩

theorem firstRepeated?_eq_none_iff {seen keys : List String} :
    firstRepeated? seen keys = none ↔ keys.Nodup ∧ ∀ key ∈ keys, key ∉ seen := by
  induction keys generalizing seen with
  | nil => simp [firstRepeated?]
  | cons key rest ih =>
    unfold firstRepeated?
    by_cases h : key ∈ seen
    · simp [h]
    · rw [List.forall_mem_cons, List.nodup_cons]
      simp only [List.contains_eq_mem, h, decide_false, Bool.false_eq_true, if_false, ih, List.mem_cons, not_or]
      constructor
      · rintro ⟨hnodup, hfresh⟩
        exact ⟨⟨fun hmem => (hfresh key hmem).1 rfl, hnodup⟩, not_false, fun k hk => (hfresh k hk).2⟩
      · rintro ⟨⟨hkey, hnodup⟩, _, hfresh⟩
        exact ⟨hnodup, fun k hk => ⟨fun he => hkey (he ▸ hk), hfresh k hk⟩⟩

theorem distinctColumns_eq_ok {metadata : Bool} {columns all : List Column}
    (h : distinctColumns metadata columns = .ok all) :
    all = metadataColumns metadata ++ columns ∧ (all.map (·.outputKey)).Nodup := by
  unfold distinctColumns at h
  dsimp only at h
  split at h
  · cases h
  · rename_i hnone
    cases h
    exact ⟨rfl, (firstRepeated?_eq_none_iff.1 hnone).1⟩

/-- A sort key is accepted when it names a column, which it then leads to. -/
theorem sortColumn_mem_of_validateSort {sort : List SortKey} {columns : List Column}
    (h : validateSort sort columns = .ok ()) :
    ∀ key ∈ sort, sortColumn key.field columns ∈ columns.map (·.outputKey) := by
  intro key hkey
  unfold validateSort at h
  split at h
  · cases h
  · rename_i hnone
    have hnamed := List.find?_eq_none.1 hnone key hkey
    rw [Bool.not_eq_true, Bool.not_eq_false'] at hnamed
    unfold sortColumn
    split
    · rename_i hany
      obtain ⟨column, hmem, hcolumn⟩ := List.any_eq_true.1 hany
      exact List.mem_map.2 ⟨column, hmem, eq_of_beq hcolumn⟩
    · rename_i hkeys
      split
      · rename_i column hcolumn
        exact List.mem_map_of_mem (List.mem_of_find?_eq_some hcolumn)
      · -- no column is returned under the key and none has it as its path
        rename_i hpaths
        obtain ⟨column, hmem, hcolumn⟩ := List.any_eq_true.1 hnamed
        unfold Column.isNamed at hcolumn
        rcases Bool.or_eq_true_iff.1 hcolumn with hcolumn | hcolumn
        · exact absurd (List.any_eq_true.2 ⟨column, hmem, hcolumn⟩) hkeys
        · exact absurd hcolumn (List.find?_eq_none.1 hpaths column hmem)

end ThingQuery
