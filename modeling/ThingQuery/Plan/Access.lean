import ThingQuery.Filter.Lead
import ThingQuery.Filter.Normal
import ThingQuery.Plan.Basic

/-!
# Better ways to the rows

A plan that scans tables is changed to look up keys or to start from the other end of a relationship, where the leading
predicate of its filter allows it; that predicate is then dropped from the filter.  Filters are brought into normal form
and their leading predicates to the front, also in nested columns.
-/

namespace ThingQuery

namespace Filter

mutual

/-- The greatest number of relationships that a filter goes through one after the other. -/
def hops : Filter → Nat
  | .and children => hopsAll children
  | .or children => hopsAll children
  | .not child => hops child
  | .nested _ _ _ inner => hops inner + 1
  | .scalar .. | .list .. | .ref .. | .null .. | .falsy => 0

/-- The greatest number of relationships that a filter of a list goes through one after the other. -/
def hopsAll : List Filter → Nat
  | [] => 0
  | f :: rest => max (hops f) (hopsAll rest)

end

/-- The filter with its leading predicate in front, if the thing is known. -/
def reorderFor (schema : Schema) (thing : String) (filter : Filter) : Filter :=
  match schema.thing? thing with
  | some t => filter.reorder t
  | none => filter

/-- The filter in normal form with its leading predicate in front, or `none` when it always holds. -/
def tidy? (schema : Schema) (thing : String) (filter : Filter) : Option Filter :=
  let normal := filter.normalize
  if normal.isTruthy then none else some (normal.reorderFor schema thing)

end Filter

/-- A way to rows together with the filter that they still have to satisfy. -/
abbrev Access := Source × Option Filter

/-- The lookup of keys that a predicate on the key column allows. -/
def Source.pointLookup? (tables : List String) : Filter → Option Source
  | .scalar .eq left (.string id) => if left = idColumn then some (.pointer tables [id]) else none
  | .list .isIn left right =>
    if left = idColumn then (right.mapM Json.string?).map fun ids => .pointer tables (ids.eraseDups) else none
  | _ => none

/-- Whether two lists name the same number of tables and every table of the first is in the second. -/
def sameTables (a b : List String) : Bool := a.length == b.length && a.all b.contains

namespace Schema

/-- A field of a thing with its opposite, if the field can be followed back from there to exactly the tables of the
thing. -/
def traversable? (schema : Schema) (owner : Thing) (path : String) : Option (Field × Opposite) := do
  let field ← owner.field? path
  if schema.isTraversable field then
    let opposite ← field.kind.opposite?
    let backField ← schema.oppositeField? opposite
    let back ← backField.kind.opposite?
    let pointed ← schema.thing? back.thing
    if sameTables pointed.variants owner.variants then some (field, opposite) else none
  else
    none

/-- The start from the other end of a relationship that a predicate allows; `follow` gives the way to those records at
the other end that satisfy a filter. -/
def traversal? (schema : Schema) (follow : Thing → Filter → Option Access) (thing : String) :
    Filter → Option Source
  | .nested path _ none inner => do
    let owner ← schema.thing? thing
    let (_, opposite) ← schema.traversable? owner path
    let target ← schema.thing? opposite.thing
    let (source, rest) ← follow target inner
    some (.subquery source opposite.path rest opposite.cardinality)
  | .ref op left right tables none => do
    let owner ← schema.thing? thing
    let (field, opposite) ← schema.traversable? owner left
    let cardinality ← field.kind.cardinality?
    if op = .positive cardinality then
      let targets :=
        match tables, schema.thing? opposite.thing with
        | some named, _ => named
        | none, some target => target.variants
        | none, none => [opposite.thing]
      some (.subquery (.pointer targets right) opposite.path none opposite.cardinality)
    else
      none
  | _ => none

/-- The better way that the first part of a conjunction allows, with the conjunction of the other parts. -/
def improveScan? (schema : Schema) (follow : Thing → Filter → Option Access) (thing : String)
    (tables : List String) (filter : Filter) : Option Access :=
  match filter.conjuncts with
  | [] => none
  | first :: rest =>
    (Source.pointLookup? tables first <|> schema.traversal? follow thing first).map fun source =>
      (source, if rest.isEmpty then none else some (Filter.all rest))

/-- The better way to the rows of a source that satisfy a filter.  The cheapest part of the filter is tried first and
then its leading predicate. -/
def improveWith (schema : Schema) (follow : Thing → Filter → Option Access) (thing : String) (source : Source)
    (filter : Option Filter) : Access :=
  match filter.map Filter.normalize with
  | none => (source, none)
  | some normal =>
    if normal.isTruthy then (source, none)
    else
      let led := normal.reorderFor schema thing
      match source with
      | .scan tables =>
        match schema.improveScan? follow thing tables normal <|> schema.improveScan? follow thing tables led with
        | some (better, rest) => (better, rest.bind (Filter.tidy? schema thing))
        | none => (source, some led)
      | _ => (source, some led)

/-- The better way to the rows of a source, going through at most `hops` relationships one after the other. -/
def improve (schema : Schema) : Nat → String → Source → Option Filter → Access
  | 0, thing, source, filter => schema.improveWith (fun _ _ => none) thing source filter
  | hops + 1, thing, source, filter =>
    schema.improveWith
      (fun target inner => some (schema.improve hops target.name (.scan target.variants) (some inner)))
      thing source filter

end Schema

namespace Column

mutual

/-- The column with tidy filters. -/
def tidy (schema : Schema) : Column → Column
  | .nested scope columns =>
    .nested { scope with filter := scope.filter.bind (Filter.tidy? schema scope.thing) } (tidyAll schema columns)
  | .metadata field label => .metadata field label
  | .data path label => .data path label
  | .reference path label cardinality tunnel => .reference path label cardinality tunnel
  | .flex path label cardinality => .flex path label cardinality

/-- The columns with tidy filters. -/
def tidyAll (schema : Schema) : List Column → List Column
  | [] => []
  | c :: rest => tidy schema c :: tidyAll schema rest

end

end Column

/-- The plan with a better way to its rows and tidy filters. -/
def Plan.optimize (schema : Schema) (plan : Plan) : Plan :=
  let hops := match plan.filter with
    | some filter => filter.hops
    | none => 0
  let (source, filter) := schema.improve hops plan.thing plan.source plan.filter
  { plan with source, filter, columns := Column.tidyAll schema plan.columns }

end ThingQuery
