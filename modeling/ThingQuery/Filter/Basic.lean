import ThingQuery.Json.Printer
import ThingQuery.Schema.Basic

/-!
# Filters

A filter is a condition on a record: comparisons of a column, comparisons of pointers, tests for absence, connectives,
and the condition that some related record satisfies a filter.  The empty conjunction holds of every record and `falsy`
of none.
-/

namespace ThingQuery

/-- Comparisons of a column with one value. -/
inductive ScalarOp where
  | eq
  | ne
  | gt
  | lt
  | gte
  | lte
  /-- The column holds the value among others. -/
  | contains
  /-- The column does not hold the value. -/
  | containsNot
  deriving DecidableEq

namespace ScalarOp

/-- The operator sign. -/
def sign : ScalarOp → String
  | .eq => "="
  | .ne => "!="
  | .gt => ">"
  | .lt => "<"
  | .gte => ">="
  | .lte => "<="
  | .contains => "CONTAINS"
  | .containsNot => "CONTAINSNOT"

/-- All scalar operators. -/
def all : List ScalarOp := [.eq, .ne, .gt, .lt, .gte, .lte, .contains, .containsNot]

end ScalarOp

/-- Comparisons of a column with a list of values. -/
inductive ListOp where
  | isIn
  | notIn
  | containsAll
  | containsAny
  | containsNone
  deriving DecidableEq

namespace ListOp

/-- The operator sign. -/
def sign : ListOp → String
  | .isIn => "IN"
  | .notIn => "NOT IN"
  | .containsAll => "CONTAINSALL"
  | .containsAny => "CONTAINSANY"
  | .containsNone => "CONTAINSNONE"

/-- All list operators. -/
def all : List ListOp := [.isIn, .notIn, .containsAll, .containsAny, .containsNone]

/-- The scalar operator with the same meaning for a list of one value. -/
def scalar : ListOp → ScalarOp
  | .isIn => .eq
  | .notIn => .ne
  | .containsAll | .containsAny => .contains
  | .containsNone => .containsNot

/-- Whether the operator never holds for an empty list. -/
def isPositive : ListOp → Bool
  | .isIn | .containsAny => true
  | .notIn | .containsAll | .containsNone => false

/-- The operator for "is one of these". -/
def positive : Cardinality → ListOp
  | .one => .isIn
  | .many => .containsAny

/-- The operator for "is none of these". -/
def negative : Cardinality → ListOp
  | .one => .notIn
  | .many => .containsNone

end ListOp

/-- Tests for absence. -/
inductive NullOp where
  | isNone
  | isNotNone
  deriving DecidableEq

/-- The operator sign. -/
def NullOp.sign : NullOp → String
  | .isNone => "IS NONE"
  | .isNotNone => "IS NOT NONE"

/-- A condition on a record. -/
inductive Filter where
  /-- A comparison of a column with a value. -/
  | scalar (op : ScalarOp) (left : String) (right : Json)
  /-- A comparison of a column with a list of values. -/
  | list (op : ListOp) (left : String) (right : List Json)
  /-- A comparison of stored pointers with keys, which are looked for in the given tables or in any. -/
  | ref (op : ListOp) (left : String) (right : List String) (tables : Option (List String))
    (tunnel : Option String)
  | null (op : NullOp) (left : String) (tunnel : Option String)
  | and (children : List Filter)
  | or (children : List Filter)
  | not (child : Filter)
  /-- The filter holds of some record that the path leads to. -/
  | nested (path : String) (cardinality : Cardinality) (tunnel : Option String) (inner : Filter)
  | falsy

namespace Filter

instance : Inhabited Filter := ⟨.falsy⟩

/-- The filter that holds of every record. -/
def truthy : Filter := .and []

/-- Whether the filter is the empty conjunction. -/
def isTruthy : Filter → Bool
  | .and [] => true
  | _ => false

/-- The column that a predicate tests; connectives have none. -/
def left? : Filter → Option String
  | .scalar _ left _ | .list _ left _ | .ref _ left _ _ _ | .null _ left _ => some left
  | .nested path _ _ _ => some path
  | _ => none

/-- The parts of the outermost conjunction. -/
def conjuncts : Filter → List Filter
  | .and children => children
  | other => [other]

/-- The conjunction of the filters; one filter stands for itself. -/
def all : List Filter → Filter
  | [f] => f
  | fs => .and fs

/-- The disjunction of the filters; one filter stands for itself. -/
def any : List Filter → Filter
  | [f] => f
  | fs => .or fs

mutual

/-- Whether two filters are written alike, with values that are the same. -/
def same : Filter → Filter → Bool
  | .scalar op left right, .scalar op' left' right' => op == op' && left == left' && right == right'
  | .list op left right, .list op' left' right' => op == op' && left == left' && Json.sameItems right right'
  | .ref op left right tables tunnel, .ref op' left' right' tables' tunnel' =>
    op == op' && left == left' && right == right' && tables == tables' && tunnel == tunnel'
  | .null op left tunnel, .null op' left' tunnel' => op == op' && left == left' && tunnel == tunnel'
  | .and children, .and children' => sameChildren children children'
  | .or children, .or children' => sameChildren children children'
  | .not child, .not child' => same child child'
  | .nested path cardinality tunnel inner, .nested path' cardinality' tunnel' inner' =>
    path == path' && cardinality == cardinality' && tunnel == tunnel' && same inner inner'
  | .falsy, .falsy => true
  | _, _ => false

/-- Whether two lists of filters are written alike. -/
def sameChildren : List Filter → List Filter → Bool
  | [], [] => true
  | f :: fs, g :: gs => same f g && sameChildren fs gs
  | _, _ => false

end

instance : BEq Filter := ⟨same⟩

end Filter

/-- A path, with the role to which it leads on. -/
def pathText (path : String) (tunnel : Option String) : String :=
  match tunnel with
  | some role => path ++ "." ++ role
  | none => path

namespace Filter

mutual

/-- The text of a filter for people to read. -/
def toText : Filter → String
  | .scalar op left right => left ++ " " ++ op.sign ++ " " ++ right.toText
  | .list op left right => left ++ " " ++ op.sign ++ " " ++ (Json.array right).toText
  | .ref op left right tables tunnel =>
    pathText left tunnel ++ " " ++ op.sign ++ " " ++ "|".intercalate (tables.getD [])
      ++ "[" ++ ", ".intercalate right ++ "]"
  | .null op left tunnel => pathText left tunnel ++ " " ++ op.sign
  | .and [] => "TRUE"
  | .and (child :: rest) => "(" ++ " AND ".intercalate (toText child :: childTexts rest) ++ ")"
  | .or children => "(" ++ " OR ".intercalate (childTexts children) ++ ")"
  | .not child => "NOT " ++ toText child
  | .nested path _ tunnel inner => "ANY " ++ pathText path tunnel ++ " WHERE " ++ toText inner
  | .falsy => "FALSE"

/-- The texts of a list of filters. -/
def childTexts : List Filter → List String
  | [] => []
  | f :: rest => toText f :: childTexts rest

end

end Filter

end ThingQuery
