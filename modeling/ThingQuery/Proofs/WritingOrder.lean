import Mathlib.Data.Option.Basic
import ThingQuery.Proofs.Cardinality
import ThingQuery.Proofs.ReorderedFilters
import ThingQuery.Store.Execute

/-!
# The order in which filters are written

A query whose filters are reordered, also those of nested fields (`Query.Reordered`), is accepted whenever the query is.
The two plans have the same source and the same cardinality and return the same on every store
(`Plan.agree_of_reordered`).  They are not the same plan: their filters differ, and columns that nest filters do too.
So columns are compared like filters, by what an execution gets from them (`Column.effect`).
-/

namespace ThingQuery

/-! ### Checks that agree -/

/-- Two checks agree when both are refused, for whatever reason, or both succeed with related results. -/
inductive Agree {ε α β : Type} (R : α → β → Prop) : Except ε α → Except ε β → Prop where
  | refused (e e' : ε) : Agree R (.error e) (.error e')
  | accepted {a : α} {b : β} (h : R a b) : Agree R (.ok a) (.ok b)

namespace Agree

variable {ε α β γ δ : Type} {R : α → β → Prop} {S : γ → δ → Prop} {x : Except ε α} {y : Except ε β}

theorem bind (h : Agree R x y) {f : α → Except ε γ} {g : β → Except ε δ}
    (hfg : ∀ {a b}, R a b → Agree S (f a) (g b)) : Agree S (x >>= f) (y >>= g) := by
  cases h with
  | refused e e' => exact .refused e e'
  | accepted h => exact hfg h

theorem bind_self (x : Except ε α) {f : α → Except ε γ} {g : α → Except ε δ} (hfg : ∀ a, x = .ok a → Agree S (f a) (g a)) :
    Agree S (x >>= f) (x >>= g) := by
  cases x with
  | error e => exact .refused e e
  | ok a => exact hfg a rfl

theorem refl {T : α → α → Prop} (hT : ∀ a, T a a) (x : Except ε α) : Agree T x x := by
  cases x with
  | error e => exact .refused e e
  | ok a => exact .accepted (hT a)

theorem trans {T : α → α → Prop} (hT : ∀ {a b c}, T a b → T b c → T a c) {x y z : Except ε α} (hxy : Agree T x y)
    (hyz : Agree T y z) : Agree T x z := by
  cases hxy with
  | refused e e' =>
    cases hyz with
    | refused _ e'' => exact .refused e e''
  | accepted hab =>
    cases hyz with
    | accepted hbc => exact .accepted (hT hab hbc)

end Agree

/-- Reordered filters are both refused or have one effect. -/
theorem Filter.agree_ofJson {schema : Schema} {thing : Thing} {v w : Json}
    (h : Json.Reordered schema (.filter thing) v w) :
    Agree (fun f g => f.effect = g.effect) (ofJson schema thing v) (ofJson schema thing w) := by
  rcases single_eq_iff.1 (single_eq_of_reordered h) with ⟨e, e', hv, hw⟩ | ⟨f, g, hv, hw, heffect⟩
  · rw [hv, hw]
    exact .refused e e'
  · rw [hv, hw]
    exact .accepted heffect

/-! ### Columns -/

/-- What an execution gets from a column. -/
@[ext]
structure Column.Effect where
  outputKey : String
  path? : Option String
  value? : Store → Row → Option Json

/-- The effect of a column. -/
def Column.effect (column : Column) : Column.Effect where
  outputKey := column.outputKey
  path? := column.path?
  value? store row := store.columnValue? column row

section Columns

variable {columns columns' : List Column} (h : columns.map Column.effect = columns'.map Column.effect)

include h

theorem validateSort_congr (sort : List SortKey) : validateSort sort columns = validateSort sort columns' := by
  have hnamed : ∀ field, columns.any (·.isNamed field) = columns'.any (·.isNamed field) := by
    intro field
    have hany := congrArg (·.any fun e => e.outputKey == field || e.path? == some field) h
    rwa [List.any_map, List.any_map] at hany
  simp only [validateSort, hnamed]

theorem sortColumn_congr (field : String) : sortColumn field columns = sortColumn field columns' := by
  have hany := congrArg (·.any fun e => e.outputKey == field) h
  have hfind := congrArg (fun effects => (effects.find? fun e => e.path? == some field).map (·.outputKey)) h
  simp only [List.any_map, List.find?_map, Option.map_map, Function.comp_def, Column.effect] at hany hfind
  unfold sortColumn
  rw [hany]
  split
  · rfl
  · generalize columns.find? (·.path? == some field) = found at hfind
    generalize columns'.find? (·.path? == some field) = found' at hfind
    cases found <;> cases found' <;> simp_all

theorem distinctColumns_agree (metadata : Bool) :
    Agree (fun all all' => all.map Column.effect = all'.map Column.effect) (distinctColumns metadata columns)
      (distinctColumns metadata columns') := by
  have heffects : (metadataColumns metadata ++ columns).map Column.effect =
      (metadataColumns metadata ++ columns').map Column.effect := by
    rw [List.map_append, h, ← List.map_append]
  have hkeys : (metadataColumns metadata ++ columns).map (·.outputKey) =
      (metadataColumns metadata ++ columns').map (·.outputKey) := by
    have houtput := congrArg (List.map Column.Effect.outputKey) heffects
    rwa [List.map_map, List.map_map] at houtput
  unfold distinctColumns
  dsimp only
  rw [hkeys]
  cases firstRepeated? [] ((metadataColumns metadata ++ columns').map (·.outputKey)) with
  | some key => exact .refused _ _
  | none => exact .accepted heffects

end Columns

namespace Store

variable (store : Store) {columns columns' : List Column}

theorem columnValues_congr (h : columns.map Column.effect = columns'.map Column.effect) (row : Row) :
    store.columnValues columns row = store.columnValues columns' row := by
  induction columns generalizing columns' with
  | nil => rw [List.map_eq_nil_iff.1 h.symm]
  | cons c rest ih =>
    obtain ⟨c', rest', rfl, hc, hrest⟩ := List.map_eq_cons_iff.1 h.symm
    have hkey : c'.outputKey = c.outputKey := congrArg Column.Effect.outputKey hc
    have hvalue : store.columnValue? c' row = store.columnValue? c row :=
      congrFun (congrFun (congrArg Column.Effect.value? hc) store) row
    rw [columnValues, columnValues, ih hrest.symm, hkey, hvalue]

theorem projectRow_congr (h : columns.map Column.effect = columns'.map Column.effect) (row : Row) :
    store.projectRow columns row = store.projectRow columns' row := by
  cases columns with
  | nil => rw [List.map_eq_nil_iff.1 h.symm]
  | cons c rest =>
    obtain ⟨c', rest', rfl, _, _⟩ := List.map_eq_cons_iff.1 h.symm
    exact congrArg collectFields (store.columnValues_congr h row)

theorem shape_congr (h : columns.map Column.effect = columns'.map Column.effect) (sort : List SortKey)
    (limit offset : Option Nat) (rows : List Row) :
    shape (store.projectRow columns) columns sort limit offset rows =
      shape (store.projectRow columns') columns' sort limit offset rows := by
  rw [funext (store.projectRow_congr h)]
  simp only [shape, sortColumn_congr h]

theorem retain_congr {filter filter' : Option Filter} (h : filter.map Filter.effect = filter'.map Filter.effect)
    (rows : List Row) : store.retain filter rows = store.retain filter' rows := by
  cases filter with
  | none => rw [Option.map_eq_none_iff.1 h.symm]
  | some f =>
    obtain ⟨g, rfl, hg⟩ := Option.map_eq_some_iff.1 h.symm
    simp only [retain, Filter.satisfies_of_effect hg]

end Store

/-! ### Reordered queries -/

/-- Two options differ only in a filter on a thing that is reordered. -/
structure Options.Reordered (schema : Schema) (thing : Thing) (options options' : Options) : Prop where
  rest : options' = { options with filter := options'.filter }
  filter : Option.Rel (Json.Reordered schema (.filter thing)) options.filter options'.filter

/-- Two selections from a thing differ only in filters of nested fields that are reordered, at any depth. -/
inductive Selection.Reordered (schema : Schema) : Thing → Selection → Selection → Prop where
  | refl (thing : Thing) (selection : Selection) : Reordered schema thing selection selection
  | trans {thing : Thing} {a b c : Selection} (hab : Reordered schema thing a b) (hbc : Reordered schema thing b c) :
    Reordered schema thing a c
  | nested {thing target : Thing} {before after : List Selector} {path : String} {label : Option String}
    {options options' : Options} {selection selection' : Selection}
    (htarget : ((thing.field? path).bind (·.kind.opposite?)).bind (schema.thing? ·.thing) = some target)
    (hoptions : options.Reordered schema target options') (hselection : Reordered schema target selection selection') :
    Reordered schema thing (.only (before ++ .nested path label options selection :: after))
      (.only (before ++ .nested path label options' selection' :: after))

/-- Two queries differ only in filters that are reordered, also in those of nested fields. -/
structure Query.Reordered (schema : Schema) (query query' : Query) : Prop where
  thing : query'.thing = query.thing
  options : ∀ thing, schema.thing? query.thing = some thing → query.options.Reordered schema thing query'.options
  selection : ∀ thing, schema.thing? query.thing = some thing →
    query.selection.Reordered schema thing query'.selection

/-- Two levels differ only in filters with one effect. -/
structure Level.Alike (level level' : Level) : Prop where
  rest : level' = { level with filter := level'.filter }
  filter : level.filter.map Filter.effect = level'.filter.map Filter.effect

namespace Level

variable {schema : Schema} {thing : Thing} {options options' : Options} {columns columns' : List Column}

theorem agree_builtFilter {filter filter' : Option Json}
    (h : Option.Rel (Json.Reordered schema (.filter thing)) filter filter') :
    Agree (fun f g => f.map Filter.effect = g.map Filter.effect) (builtFilter schema thing filter)
      (builtFilter schema thing filter') := by
  cases h with
  | none => exact .accepted rfl
  | some hreordered =>
    exact (Filter.agree_ofJson hreordered).bind fun heffect => .accepted (congrArg some heffect)

/-- What a level makes of its filter depends only on the effect of the filter. -/
theorem filter_effect {f g : Option Filter} (h : f.map Filter.effect = g.map Filter.effect) (thing : Thing) :
    (f.filter (!·.isTruthy)).map Filter.effect = (g.filter (!·.isTruthy)).map Filter.effect ∧
      (f.filter (!·.isTruthy)).any (Filter.pinsUnique thing) =
        (g.filter (!·.isTruthy)).any (Filter.pinsUnique thing) := by
  cases f with
  | none =>
    rw [Option.map_eq_none_iff.1 h.symm]
    exact ⟨rfl, rfl⟩
  | some f =>
    obtain ⟨g, rfl, heffect⟩ := Option.map_eq_some_iff.1 h.symm
    have htruthy : g.isTruthy = f.isTruthy := congrArg Filter.Effect.isTruthy heffect
    have hpins : g.pinsUnique thing = f.pinsUnique thing :=
      congrFun (congrArg Filter.Effect.pinsUnique heffect) thing
    cases hf : f.isTruthy with
    | true =>
      rw [Option.filter_some_neg (by simp [hf]), Option.filter_some_neg (by simp [htruthy, hf])]
      exact ⟨rfl, rfl⟩
    | false =>
      rw [Option.filter_some_pos (by simp [hf]), Option.filter_some_pos (by simp [htruthy, hf])]
      exact ⟨congrArg some heffect.symm, hpins.symm⟩

theorem agree_build (hoptions : options.Reordered schema thing options')
    (hcolumns : columns.map Column.effect = columns'.map Column.effect) :
    Agree Level.Alike (Level.build schema thing options columns) (Level.build schema thing options' columns') := by
  rw [build_eq, build_eq]
  refine (agree_builtFilter hoptions.filter).bind fun {f g} heffect => ?_
  obtain ⟨hfilter, hpins⟩ := filter_effect heffect thing
  rw [hoptions.rest]
  unfold ofFilter
  dsimp only
  rw [validateSort_congr hcolumns, hpins]
  exact .bind_self _ fun page _ => .bind_self _ fun _ _ => .accepted ⟨rfl, hfilter⟩

end Level

section Built

variable {schema : Schema} {metadata : Bool} {thing target : Thing} {options options' : Options}
  {selection selection' : Selection} {columns columns' : List Column}

theorem Column.effect_nested {scope scope' : NestedScope} (hrest : scope' = { scope with filter := scope'.filter })
    (hfilter : scope.filter.map Filter.effect = scope'.filter.map Filter.effect)
    (hcolumns : columns.map Column.effect = columns'.map Column.effect) :
    (Column.nested scope columns).effect = (Column.nested scope' columns').effect := by
  have hvalue : ∀ store row, Store.columnValue? store (.nested scope columns) row =
      Store.columnValue? store (.nested scope' columns') row := by
    intro store row
    rw [hrest, Store.columnValue?, Store.columnValue?]
    dsimp only
    rw [store.retain_congr hfilter, store.shape_congr hcolumns]
  ext1
  · rw [hrest]
    rfl
  · rw [hrest]
    rfl
  · funext store row
    exact hvalue store row

/-- A nested field is accepted with the same effect when its filters are reordered. -/
theorem Selector.agree_column? {path : String} (label : Option String)
    (htarget : ((thing.field? path).bind (·.kind.opposite?)).bind (schema.thing? ·.thing) = some target)
    (hoptions : options.Reordered schema target options')
    (hcolumns : ∀ excluded, Agree (fun columns columns' => columns.map Column.effect = columns'.map Column.effect)
      (selection.columns schema metadata target excluded) (selection'.columns schema metadata target excluded)) :
    Agree (fun c c' => c.map Column.effect = c'.map Column.effect)
      ((Selector.nested path label options selection).column? schema metadata thing)
      ((Selector.nested path label options' selection').column? schema metadata thing) := by
  rw [Selector.column?, Selector.column?]
  refine .bind_self _ fun field hfield => ?_
  rw [field?_of_getField hfield, Option.bind_some] at htarget
  split
  · rename_i cardinality opposite _ hopposite
    rw [hopposite, Option.bind_some] at htarget
    refine .bind_self _ fun found hfound => ?_
    cases (thing?_of_targetThing hfound).symm.trans htarget
    have hexcluded : options'.excluded = options.excluded := by rw [hoptions.rest]
    rw [hexcluded]
    refine (hcolumns options.excluded).bind fun hcolumns => (Level.agree_build hoptions hcolumns).bind fun hlevel => ?_
    refine .accepted (congrArg some (Column.effect_nested ?_ hlevel.filter hcolumns))
    rw [hlevel.rest]
  · exact .refused _ _

theorem Selector.agree_listColumns {before after : List Selector} {selector selector' : Selector}
    (hcolumn : Agree (fun c c' => c.map Column.effect = c'.map Column.effect)
      (selector.column? schema metadata thing) (selector'.column? schema metadata thing))
    (hpath : selector'.fieldPath = selector.fieldPath) (excluded : List String) :
    Agree (fun columns columns' => columns.map Column.effect = columns'.map Column.effect)
      (Selector.listColumns schema metadata thing excluded (before ++ selector :: after))
      (Selector.listColumns schema metadata thing excluded (before ++ selector' :: after)) := by
  induction before with
  | nil =>
    rw [List.nil_append, List.nil_append, Selector.listColumns, Selector.listColumns, hpath]
    split
    · refine .refl (fun columns => ?_) _
      rfl
    · refine hcolumn.bind fun {c c'} heffect => .bind_self _ fun columns _ => .accepted ?_
      rw [List.map_append, List.map_append]
      cases c with
      | none => rw [Option.map_eq_none_iff.1 heffect.symm]
      | some c =>
        obtain ⟨c', rfl, hc⟩ := Option.map_eq_some_iff.1 heffect.symm
        simp [hc]
  | cons first rest ih =>
    rw [List.cons_append, List.cons_append, Selector.listColumns, Selector.listColumns]
    split
    · exact ih
    · refine .bind_self _ fun column _ => ih.bind fun heffects => .accepted ?_
      rw [List.map_append, List.map_append, heffects]

/-- A selection is accepted with the same effect when its filters are reordered. -/
theorem Selection.Reordered.agree_columns (h : selection.Reordered schema thing selection') (excluded : List String) :
    Agree (fun columns columns' => columns.map Column.effect = columns'.map Column.effect)
      (selection.columns schema metadata thing excluded) (selection'.columns schema metadata thing excluded) := by
  induction h generalizing excluded with
  | refl =>
    refine .refl (fun columns => ?_) _
    rfl
  | trans _ _ ih ih' =>
    refine .trans (fun hab hbc => ?_) (ih excluded) (ih' excluded)
    exact hab.trans hbc
  | @nested _ _ _ _ _ label _ _ _ _ htarget hoptions _ ih =>
    rw [Selection.columns, Selection.columns]
    refine .bind_self _ fun _ _ => ?_
    have hcolumn := Selector.agree_column? label htarget hoptions ih
    exact (Selector.agree_listColumns hcolumn rfl excluded).bind fun heffects => distinctColumns_agree heffects metadata

theorem Store.execute_congr (store : Store) {plan plan' : Plan}
    (hrest : plan' = { plan with columns := plan'.columns, filter := plan'.filter })
    (hcolumns : plan.columns.map Column.effect = plan'.columns.map Column.effect)
    (hfilter : plan.filter.map Filter.effect = plan'.filter.map Filter.effect) :
    store.execute plan = store.execute plan' := by
  rw [hrest]
  unfold Store.execute Store.planRows
  dsimp only
  rw [store.retain_congr hfilter, store.shape_congr hcolumns]

end Built

/-- A query with reordered filters is accepted whenever the query is, and the two plans have the same source and the
same cardinality and return the same on every store. -/
theorem Plan.agree_of_reordered {schema : Schema} {query query' : Query} (h : query.Reordered schema query')
    (metadata : Bool) :
    Agree (fun plan plan' => plan.source = plan'.source ∧ plan.cardinality = plan'.cardinality ∧
        ∀ store : Store, store.execute plan = store.execute plan')
      (Plan.build schema metadata query) (Plan.build schema metadata query') := by
  unfold Plan.build
  rw [h.thing]
  refine .bind_self _ fun thing hthing => ?_
  have hfound := thing?_of_targetThing hthing
  have hoptions := h.options thing hfound
  have hexcluded : query'.options.excluded = query.options.excluded := by rw [hoptions.rest]
  rw [hexcluded]
  refine ((h.selection thing hfound).agree_columns query.options.excluded).bind fun hcolumns => ?_
  refine (Level.agree_build hoptions hcolumns).bind fun hlevel => .accepted ?_
  rw [hlevel.rest]
  exact ⟨rfl, rfl, fun store => store.execute_congr rfl hcolumns hlevel.filter⟩

/-- The accounts that satisfy a condition, with those of their sessions that satisfy another. -/
def conditionQuery (account session : Json) : Query where
  thing := "Account"
  options := { filter := some account }
  selection := .only [.field "name", .nested "sessions" none { filter := some session } (.only [.field "id"])]

/-- Two keys in a list. -/
def keyPair (first second : String) : Json := .array [.string first, .string second]

theorem keyPair_reordered (first second : String) :
    Json.Reordered accountSchema .data (keyPair first second) (keyPair second first) := .items rfl (.swap _ _ _)

/-- One of two names, and sessions of which one has one of two keys. -/
def namesFirst : Json :=
  .object [("$or", .array [.object [("name", .string "Ada")], .object [("name", .string "Bob")]]),
    ("sessions", .object [("$exists", .bool true), ("id", keyPair "s1" "s2")])]

/-- The same with everything in the opposite order. -/
def sessionsFirst : Json :=
  .object [("sessions", .object [("id", keyPair "s2" "s1"), ("$exists", .bool true)]),
    ("$or", .array [.object [("name", .string "Bob")], .object [("name", .string "Ada")]])]

theorem sessionsFirst_reordered : Json.Reordered accountSchema (.filter accountThing) namesFirst sessionsFirst := by
  have hnames : Json.Reordered accountSchema (.filter accountThing)
      (.array [.object [("name", .string "Ada")], .object [("name", .string "Bob")]])
      (.array [.object [("name", .string "Bob")], .object [("name", .string "Ada")]]) := .items rfl (.swap _ _ _)
  have hsessions : Json.Reordered accountSchema (.relationship (some sessionThing))
      (.object [("$exists", .bool true), ("id", keyPair "s1" "s2")])
      (.object [("id", keyPair "s2" "s1"), ("$exists", .bool true)]) :=
    .trans (.members rfl (.swap _ _ _))
      (@Json.Reordered.member accountSchema (.relationship (some sessionThing)) [] _ "id" _ _ (keyPair_reordered _ _))
  have hor := @Json.Reordered.member accountSchema (.filter accountThing) []
    [("sessions", .object [("$exists", .bool true), ("id", keyPair "s1" "s2")])] "$or" _ _ hnames
  exact hor.trans (.trans (.members rfl (.swap _ _ _))
    (@Json.Reordered.member accountSchema (.filter accountThing) [] _ "sessions" _ _ hsessions))

theorem Plan.agree_of_reordered_sessions :
    (conditionQuery namesFirst (.object [("id", keyPair "s1" "s2")])).Reordered accountSchema
        (conditionQuery sessionsFirst (.object [("id", keyPair "s2" "s1")])) ∧
      ∃ plan plan',
        Plan.build accountSchema true (conditionQuery namesFirst (.object [("id", keyPair "s1" "s2")])) = .ok plan ∧
          Plan.build accountSchema true (conditionQuery sessionsFirst (.object [("id", keyPair "s2" "s1")])) =
            .ok plan' ∧
          plan.source = plan'.source ∧ plan.cardinality = plan'.cardinality ∧
          ∀ store : Store, store.execute plan = store.execute plan' := by
  have hsession : Options.Reordered accountSchema sessionThing
      { filter := some (.object [("id", keyPair "s1" "s2")]) }
      { filter := some (.object [("id", keyPair "s2" "s1")]) } :=
    ⟨rfl, .some (@Json.Reordered.member accountSchema (.filter sessionThing) [] [] "id" _ _ (keyPair_reordered _ _))⟩
  have hreordered : (conditionQuery namesFirst (.object [("id", keyPair "s1" "s2")])).Reordered accountSchema
      (conditionQuery sessionsFirst (.object [("id", keyPair "s2" "s1")])) := by
    refine ⟨rfl, fun thing hthing => ?_, fun thing hthing => ?_⟩
    · cases hthing
      exact ⟨rfl, .some sessionsFirst_reordered⟩
    · cases hthing
      exact @Selection.Reordered.nested accountSchema accountThing sessionThing [.field "name"] [] "sessions" none
        _ _ _ _ rfl hsession (.refl _ _)
  refine ⟨hreordered, ?_⟩
  have hagree := Plan.agree_of_reordered hreordered true
  generalize hx : Plan.build accountSchema true _ = x at hagree ⊢
  generalize hy : Plan.build accountSchema true _ = y at hagree ⊢
  cases hagree with
  | refused e e' => cases hx
  | accepted h => exact ⟨_, _, rfl, rfl, h⟩

end ThingQuery
