import ThingQuery.Filter.Basic
import ThingQuery.Query.Basic

/-!
# Plans

A plan says where the rows of a query come from (`Source`), which of them are kept, which columns they have (`Column`),
and in which order and part they are returned.  A nested column is a plan of its own for the records that a field leads
to.
-/

namespace ThingQuery

/-- Where rows come from. -/
inductive Source where
  | scan (tables : List String)
  /-- The records with the given keys in some tables. -/
  | pointer (tables ids : List String)
  /-- The records to which a field of other records leads. -/
  | subquery (source : Source) (oppositePath : String) (filter : Option Filter) (cardinality : Cardinality)

namespace Source

/-- The name of the way to the rows. -/
def accessPath : Source → String
  | .scan _ => "TABLE_SCAN"
  | .pointer .. => "RECORD_POINTER"
  | .subquery .. => "SUBQUERY"

/-- The tables of the innermost source. -/
def tables : Source → List String
  | .scan tables => tables
  | .pointer tables _ => tables
  | .subquery source _ _ _ => source.tables

/-- Whether two sources are written alike. -/
def same : Source → Source → Bool
  | .scan tables, .scan tables' => tables == tables'
  | .pointer tables ids, .pointer tables' ids' => tables == tables' && ids == ids'
  | .subquery source path filter cardinality, .subquery source' path' filter' cardinality' =>
    same source source' && path == path' && filter == filter' && cardinality == cardinality'
  | _, _ => false

instance : BEq Source := ⟨same⟩

end Source

/-- What is known of a record apart from its fields. -/
inductive MetaField where
  | id
  | thing
  deriving DecidableEq

/-- The key under which it is returned. -/
def MetaField.key : MetaField → String
  | .id => "$id"
  | .thing => "$thing"

/-- What a nested column says about the records that a field leads to. -/
structure NestedScope where
  path : String
  /-- The key under which the records are returned instead of the field's name. -/
  label : Option String
  thing : String
  ids : Option (List String)
  filter : Option Filter
  /-- Whether one record is returned or a list. -/
  cardinality : Cardinality
  limit : Option Nat
  offset : Option Nat
  sort : List SortKey
  /-- The role to which the field leads on. -/
  tunnel : Option String

namespace NestedScope

/-- The key under which the records are returned. -/
def outputKey (scope : NestedScope) : String := scope.label.getD scope.path

/-- Whether two scopes are written alike. -/
def same (a b : NestedScope) : Bool :=
  a.path == b.path && a.label == b.label && a.thing == b.thing && a.ids == b.ids && a.filter == b.filter
    && a.cardinality == b.cardinality && a.limit == b.limit && a.offset == b.offset && a.sort == b.sort
    && a.tunnel == b.tunnel

instance : BEq NestedScope := ⟨same⟩

end NestedScope

/-- A column of the returned rows. -/
inductive Column where
  /-- The key or the table of the record. -/
  | metadata (field : MetaField) (label : Option String)
  | data (path : String) (label : Option String)
  /-- Stored pointers, returned as keys. -/
  | reference (path : String) (label : Option String) (cardinality : Cardinality) (tunnel : Option String)
  | flex (path : String) (label : Option String) (cardinality : Cardinality)
  | nested (scope : NestedScope) (columns : List Column)

namespace Column

/-- The key of the column in the returned rows. -/
def outputKey : Column → String
  | .metadata field label => label.getD field.key
  | .data path label | .reference path label _ _ | .flex path label _ => label.getD path
  | .nested scope _ => scope.outputKey

/-- The path of the column; metadata has none. -/
def path? : Column → Option String
  | .metadata .. => none
  | .data path _ | .reference path _ _ _ | .flex path _ _ => some path
  | .nested scope _ => some scope.path

mutual

/-- Whether two columns are written alike. -/
def same : Column → Column → Bool
  | .metadata field label, .metadata field' label' => field == field' && label == label'
  | .data path label, .data path' label' => path == path' && label == label'
  | .reference path label cardinality tunnel, .reference path' label' cardinality' tunnel' =>
    path == path' && label == label' && cardinality == cardinality' && tunnel == tunnel'
  | .flex path label cardinality, .flex path' label' cardinality' =>
    path == path' && label == label' && cardinality == cardinality'
  | .nested scope columns, .nested scope' columns' => scope == scope' && sameColumns columns columns'
  | _, _ => false

/-- Whether two lists of columns are written alike. -/
def sameColumns : List Column → List Column → Bool
  | [], [] => true
  | c :: cs, d :: ds => same c d && sameColumns cs ds
  | _, _ => false

end

end Column

/-- The plan of a query. -/
structure Plan where
  thing : String
  source : Source
  columns : List Column
  filter : Option Filter
  limit : Option Nat
  offset : Option Nat
  sort : List SortKey
  /-- Whether one row is returned or a list. -/
  cardinality : Cardinality

/-- Whether two plans are written alike. -/
def Plan.same (a b : Plan) : Bool :=
  a.thing == b.thing && a.source == b.source && Column.sameColumns a.columns b.columns && a.filter == b.filter
    && a.limit == b.limit && a.offset == b.offset && a.sort == b.sort && a.cardinality == b.cardinality

instance : BEq Plan := ⟨Plan.same⟩

end ThingQuery
