import ThingQuery.Filter.Basic
import ThingQuery.Store.Basic

/-!
# The meaning of filters

Which records of a store satisfy a filter.  Values are compared as they are: a missing value differs from every value,
and only numbers with numbers and texts with texts have an order.
-/

namespace ThingQuery

namespace Json

/-- The order of two numbers or of two texts. -/
def order? : Json → Json → Option Ordering
  | .number a, .number b => some (compare a.binaryValue b.binaryValue)
  | .string a, .string b => some (compare a b)
  | _, _ => none

/-- Whether a list of characters occurs in another one. -/
def occursIn (part : List Char) : List Char → Bool
  | [] => part.isEmpty
  | c :: rest => part.isPrefixOf (c :: rest) || occursIn part rest

/-- Whether a list holds the value, or a text the text. -/
def holds : Option Json → Json → Bool
  | some (.array items), v => items.any (· == v)
  | some (.string s), .string part => occursIn part.toList s.toList
  | _, _ => false

/-- Whether there is a value and it is the same as the given one. -/
def isSame (actual : Option Json) (v : Json) : Bool :=
  match actual with
  | some a => a == v
  | none => false

/-- Whether there is no value: it is missing, null or an empty list. -/
def isAbsent : Option Json → Bool
  | none | some .null => true
  | some (.array items) => items.isEmpty
  | _ => false

/-- The order of a value, which may be missing, and the given one. -/
def orderTo? (actual : Option Json) (v : Json) : Option Ordering := actual.bind (order? · v)

end Json

/-- Whether a comparison of a value, which may be missing, with the given one holds. -/
def ScalarOp.test (op : ScalarOp) (actual : Option Json) (v : Json) : Bool :=
  match op with
  | .eq => Json.isSame actual v
  | .ne => !Json.isSame actual v
  | .gt => Json.orderTo? actual v == some .gt
  | .lt => Json.orderTo? actual v == some .lt
  | .gte => Json.orderTo? actual v == some .gt || Json.orderTo? actual v == some .eq
  | .lte => Json.orderTo? actual v == some .lt || Json.orderTo? actual v == some .eq
  | .contains => Json.holds actual v
  | .containsNot => !Json.holds actual v

/-- Whether a comparison of a value, which may be missing, with a list holds. -/
def ListOp.test (op : ListOp) (actual : Option Json) (values : List Json) : Bool :=
  match op with
  | .isIn => values.any (Json.isSame actual)
  | .notIn => !values.any (Json.isSame actual)
  | .containsAll => values.all (Json.holds actual)
  | .containsAny => values.any (Json.holds actual)
  | .containsNone => !values.any (Json.holds actual)

/-- Whether a comparison with keys holds, where `hit` tells which keys are pointed to. -/
def ListOp.testKeys (op : ListOp) (hit : String → Bool) (ids : List String) : Bool :=
  match op with
  | .isIn | .containsAny => ids.any hit
  | .notIn | .containsNone => !ids.any hit
  | .containsAll => ids.all hit

/-- Whether a test for absence holds. -/
def NullOp.test (op : NullOp) (absent : Bool) : Bool :=
  match op with
  | .isNone => absent
  | .isNotNone => !absent

namespace Store

mutual

/-- Whether a record satisfies a filter. -/
def satisfies (store : Store) : Filter → Json → Bool
  | .scalar op left right, record => op.test (record.get? left) right
  | .list op left right, record => op.test (record.get? left) right
  | .ref op left right tables tunnel, record =>
    op.testKeys (fun id => (store.pointers record left tunnel).any (store.pointsTo · id tables)) right
  | .null op left tunnel, record =>
    op.test (match tunnel with
      | some role => (store.pointers record left (some role)).isEmpty
      | none => Json.isAbsent (record.get? left))
  | .and children, record => satisfiesAll store children record
  | .or children, record => satisfiesAny store children record
  | .not child, record => !satisfies store child record
  | .nested path _ tunnel inner, record =>
    (store.related record path tunnel).any fun row => satisfies store inner row.record
  | .falsy, _ => false

/-- Whether a record satisfies all filters. -/
def satisfiesAll (store : Store) : List Filter → Json → Bool
  | [], _ => true
  | f :: rest, record => satisfies store f record && satisfiesAll store rest record

/-- Whether a record satisfies some filter. -/
def satisfiesAny (store : Store) : List Filter → Json → Bool
  | [], _ => false
  | f :: rest, record => satisfies store f record || satisfiesAny store rest record

end

/-- The rows whose records satisfy a filter, or all rows if there is none. -/
def retain (store : Store) (filter : Option Filter) (rows : List Row) : List Row :=
  match filter with
  | some f => rows.filter fun row => store.satisfies f row.record
  | none => rows

end Store

end ThingQuery
