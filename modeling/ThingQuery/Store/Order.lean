import ThingQuery.Query.Basic
import ThingQuery.Store.Basic

/-!
# The order of rows

Rows are ordered by sort keys.  A missing value comes before null, then come truth values, numbers, texts, lists and
objects; numbers are compared as floating-point numbers, and lists and objects do not differ among each other.  Rows
that no sort key tells apart keep their order.
-/

namespace ThingQuery

namespace Json

/-- The place of a value's kind in the order. -/
def kindRank : Json → Nat
  | .null => 0
  | .bool _ => 1
  | .number _ => 2
  | .string _ => 3
  | .array _ => 4
  | .object _ => 5

/-- The order of two values. -/
def compareValues : Json → Json → Ordering
  | .bool a, .bool b => compare a.toNat b.toNat
  | .number a, .number b => compare a.binaryValue b.binaryValue
  | .string a, .string b => compare a b
  | a, b => compare a.kindRank b.kindRank

/-- The order of two values that may be missing. -/
def compareOptions : Option Json → Option Json → Ordering
  | none, none => .eq
  | none, some _ => .lt
  | some _, none => .gt
  | some a, some b => compareValues a b

end Json

/-- A row with its returned columns. -/
structure ProjectedRow where
  row : Row
  fields : List (String × Json)

namespace ProjectedRow

/-- The returned column of that key, or else the stored value of that name. -/
def key? (p : ProjectedRow) (field : String) : Option Json :=
  match p.fields.lookup field with
  | some v => some v
  | none => p.row.record.get? field

/-- The order of two rows by one sort key. -/
def compareBy (key : SortKey) (p q : ProjectedRow) : Ordering :=
  let order := Json.compareOptions (p.key? key.field) (q.key? key.field)
  match key.direction with
  | .ascending => order
  | .descending => order.swap

/-- The order of two rows by all sort keys. -/
def compareByAll (sort : List SortKey) (p q : ProjectedRow) : Ordering :=
  match sort with
  | [] => .eq
  | key :: rest => (compareBy key p q).then (compareByAll rest p q)

/-- The rows in order. -/
def sortRows (sort : List SortKey) (rows : List ProjectedRow) : List ProjectedRow :=
  rows.mergeSort fun p q => (compareByAll sort p q).isLE

end ProjectedRow

end ThingQuery
