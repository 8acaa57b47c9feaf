import ThingQuery.Plan.Bounds
import ThingQuery.Store.Order
import ThingQuery.Store.Satisfies

/-!
# Execution of plans

A plan is executed on a store: the rows of its source that satisfy its filter are given their columns, put in order and
cut to their part.
-/

namespace ThingQuery

namespace Store

/-- The rows of a source. -/
def sourceRows (store : Store) : Source → List Row
  | .scan tables => tables.flatMap store.scan
  | .pointer tables ids => tables.flatMap fun table => ids.filterMap (store.get? table)
  | .subquery source oppositePath filter _ =>
    let inner := store.retain filter (sourceRows store source)
    let pointers := inner.flatMap fun row => store.pointers row.record oppositePath none
    pointers.eraseDups.filterMap store.resolve?

/-- The key of a pointer, or the value itself if it is no pointer. -/
def flexValue (store : Store) (v : Json) : Json :=
  match v with
  | .string s =>
    match store.splitPointer? s with
    | some (_, id) => .string id
    | none => v
  | _ => v

/-- All values, or the first one when only one is wanted. -/
def collapseValues (cardinality : Cardinality) (values : List Json) : Option Json :=
  if cardinality.isMany then some (.array values) else values.head?

/-- The part of a list that is returned. -/
def window {α : Type} (limit offset : Option Nat) (rows : List α) : List α :=
  let rest := rows.drop (offset.getD 0)
  match limit with
  | some n => rest.take n
  | none => rest

/-- The rows with their columns, in order and cut to their part; `project` gives the columns of a row. -/
def shape (project : Row → List (String × Json)) (columns : List Column) (sort : List SortKey)
    (limit offset : Option Nat) (rows : List Row) : List Json :=
  let projected := rows.map fun row => (⟨row, project row⟩ : ProjectedRow)
  let keys := sort.map fun key => { key with field := sortColumn key.field columns }
  (window limit offset (ProjectedRow.sortRows keys projected)).map fun p => .object p.fields

/-- The columns of a row from their keys and values, of which the last one under a key counts. -/
def collectFields (fields : List (String × Json)) : List (String × Json) :=
  fields.foldl (fun members (key, v) => Json.insertMember key v members) []

mutual

/-- The value of a column, if the row has one. -/
def columnValue? (store : Store) : Column → Row → Option Json
  | .metadata .thing _, row => some (.string row.table)
  | .metadata .id _, row => row.record.get? idColumn
  | .data path _, row => row.record.get? path
  | .reference path _ cardinality tunnel, row =>
    collapseValues cardinality
      (((store.related row.record path tunnel).filterMap Row.id?).map Json.string)
  | .flex path _ cardinality, row =>
    (row.record.get? path).map fun v =>
      match v, cardinality with
      | .array items, .many => .array (items.map store.flexValue)
      | other, _ => store.flexValue other
  | .nested scope columns, row =>
    let related := store.related row.record scope.path scope.tunnel
    let wanted :=
      match scope.ids with
      | some ids => related.filter fun r => r.id?.any ids.contains
      | none => related
    collapseValues scope.cardinality
      (shape (projectRow store columns) columns scope.sort scope.limit scope.offset (store.retain scope.filter wanted))

/-- The columns of a row; without columns everything is returned. -/
def projectRow (store : Store) : List Column → Row → List (String × Json)
  | [], row => row.record.object?.getD []
  | c :: rest, row =>
    collectFields ((columnValue? store c row).toList.map (c.outputKey, ·) ++ columnValues store rest row)

/-- The keys and values of columns that a row has. -/
def columnValues (store : Store) : List Column → Row → List (String × Json)
  | [], _ => []
  | c :: rest, row => (columnValue? store c row).toList.map (c.outputKey, ·) ++ columnValues store rest row

end

/-- The rows that a plan keeps. -/
def planRows (store : Store) (plan : Plan) : List Row := store.retain plan.filter (store.sourceRows plan.source)

/-- The result of a plan: a list, or the first row or null when only one is wanted. -/
def execute (store : Store) (plan : Plan) : Json :=
  let rows :=
    shape (store.projectRow plan.columns) plan.columns plan.sort plan.limit plan.offset (store.planRows plan)
  (collapseValues plan.cardinality rows).getD .null

end Store

end ThingQuery
