import ThingQuery.Filter.Build
import ThingQuery.Plan.Bounds

/-!
# Plans from queries

A query is checked against the schema and turned into a plan.  The plan returns one row when the query asks for a single
key, or when its filter fixes a field whose values are unique; otherwise it returns a list.
-/

namespace ThingQuery

/-- The column of a stored field of a thing; constant and computed fields have none. -/
def Field.column? (thing : Thing) (field : Field) : Option Column :=
  match field.kind with
  | .constant _ | .computed _ => none
  | .data .. =>
    if thing.isIdField field.name then
      some (.data idColumn (if field.name = idColumn then none else some field.name))
    else
      some (.data field.name none)
  | .ref .flex cardinality => some (.flex field.name none cardinality)
  | .ref .ref cardinality => some (.reference field.name none cardinality none)
  | .link cardinality _ _ _ _ | .role cardinality _ =>
    some (.reference field.name none cardinality field.tunnel?)

/-- Whether the values of a column are unique among the records of a thing. -/
def Thing.isUnique (thing : Thing) (left : String) : Bool :=
  left == idColumn || (thing.field? left).any (·.kind.isUnique)

/-- Whether a filter fixes the value of a unique column. -/
def Filter.pins (thing : Thing) : Filter → Bool
  | .scalar .eq left _ => thing.isUnique left
  | .list .isIn left right => right.length == 1 && thing.isUnique left
  | _ => false

/-- Whether a part of the outermost conjunction fixes the value of a unique column. -/
def Filter.pinsUnique (thing : Thing) (filter : Filter) : Bool := filter.conjuncts.any (Filter.pins thing)

/-- The first key that is among the seen ones or among the keys before it. -/
def firstRepeated? (seen : List String) : List String → Option String
  | [] => none
  | key :: rest => if seen.contains key then some key else firstRepeated? (key :: seen) rest

/-- What the options of a query say about its records, checked against the thing and the columns. -/
structure Level where
  ids : Option (List String)
  filter : Option Filter
  page : Page
  sort : List SortKey
  /-- Whether one record is wanted or a list. -/
  cardinality : Cardinality

/-- Checks the options of a query. -/
def Level.build (schema : Schema) (thing : Thing) (options : Options) (columns : List Column) :
    Except PlanError Level := do
  let built ← match options.filter with
    | some v => (Filter.ofJson schema thing v).map some
    | none => .ok none
  let filter := built.filter (!·.isTruthy)
  let page ← Page.parse options.limit options.offset
  validateSort options.sort columns
  let isSingle := (options.id.bind IdSelector.single?).isSome
  let isPinned := filter.any (Filter.pinsUnique thing)
  pure
    { ids := options.id.map IdSelector.ids
      filter
      page
      sort := options.sort
      cardinality := if isSingle || isPinned then .one else .many }

/-- The first excluded field that the thing does not have. -/
def checkExcluded (thing : Thing) (excluded : List String) : Except PlanError Unit :=
  match excluded.find? fun name => (thing.field? name).isNone with
  | some name => .error (.unknownField thing.name name)
  | none => .ok ()

/-- The columns that every row starts with. -/
def metadataColumns (metadata : Bool) : List Column :=
  if metadata then [.metadata .thing none, .metadata .id none] else []

/-- The columns with the metadata in front, where no two are returned under one key. -/
def distinctColumns (metadata : Bool) (columns : List Column) : Except PlanError (List Column) :=
  let all := metadataColumns metadata ++ columns
  match firstRepeated? [] (all.map (·.outputKey)) with
  | some key => .error (.duplicateKey key)
  | none => .ok all

/-- A field of a thing. -/
def Thing.getField (thing : Thing) (name : String) : Except PlanError Field :=
  match thing.field? name with
  | some field => .ok field
  | none => .error (.unknownField thing.name name)

mutual

/-- The columns of a selection from a thing. -/
def Selection.columns (schema : Schema) (metadata : Bool) (thing : Thing) (excluded : List String) :
    Selection → Except PlanError (List Column)
  | .all => do
    checkExcluded thing excluded
    distinctColumns metadata
      ((thing.fields.filter fun field => !excluded.contains field.name).filterMap (·.column? thing))
  | .only selectors => do
    checkExcluded thing excluded
    let columns ← Selector.listColumns schema metadata thing excluded selectors
    distinctColumns metadata columns

/-- The columns of the selected fields that are not excluded. -/
def Selector.listColumns (schema : Schema) (metadata : Bool) (thing : Thing) (excluded : List String) :
    List Selector → Except PlanError (List Column)
  | [] => .ok []
  | selector :: rest =>
    if excluded.contains selector.fieldPath then Selector.listColumns schema metadata thing excluded rest
    else do
      let column ← Selector.column? schema metadata thing selector
      let columns ← Selector.listColumns schema metadata thing excluded rest
      pure (column.toList ++ columns)

/-- The column of a selected field, if it has one. -/
def Selector.column? (schema : Schema) (metadata : Bool) (thing : Thing) :
    Selector → Except PlanError (Option Column)
  | .field name => do
    let field ← thing.getField name
    pure (field.column? thing)
  | .nested path label options selection => do
    let field ← thing.getField path
    match field.kind.cardinality?, field.kind.opposite? with
    | some fieldCardinality, some opposite => do
      let target ← Filter.targetThing schema opposite.thing
      let columns ← Selection.columns schema metadata target options.excluded selection
      let level ← Level.build schema target options columns
      pure (some (.nested
        { path
          label
          thing := target.name
          ids := level.ids
          filter := level.filter
          cardinality := match fieldCardinality with
            | .one => .one
            | .many => level.cardinality
          limit := level.page.limit
          offset := level.page.offset
          sort := level.sort
          tunnel := field.tunnel? } columns))
    | _, _ => .error (.notNestable path thing.name field.kind.word)

end

/-- The plan of a query; `metadata` tells whether rows start with the table and the key of their record. -/
def Plan.build (schema : Schema) (metadata : Bool) (query : Query) : Except PlanError Plan := do
  let thing ← Filter.targetThing schema query.thing
  let columns ← query.selection.columns schema metadata thing query.options.excluded
  let level ← Level.build schema thing query.options columns
  pure
    { thing := thing.name
      source := match level.ids with
        | some ids => .pointer thing.variants ids
        | none => .scan thing.variants
      columns
      filter := level.filter
      limit := level.page.limit
      offset := level.page.offset
      sort := level.sort
      cardinality := level.cardinality }

end ThingQuery
