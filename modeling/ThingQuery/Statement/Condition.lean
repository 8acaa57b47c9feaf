import ThingQuery.Filter.Basic
import ThingQuery.Statement.Fragment
import ThingQuery.Statement.Name

/-!
# Conditions

How a filter is written in a statement.  Only names, operators and placeholders are text; every literal is a value.
-/

namespace ThingQuery

open Fragment (ofText ofValue ofTexts join between)

/-- A column as it is written in a condition. -/
def columnText (left : String) : String := if left = idColumn then "meta::id(id)" else nameText left

/-- A pointer to the record with a key in a table. -/
def pointerFragment (table id : String) : Fragment :=
  [.text "type::thing(", .value (.string table), .text ", ", .value (.string id), .text ")"]

/-- The pointers to the records with the given keys in the given tables, table by table. -/
def pointerFragments (tables ids : List String) : List Fragment :=
  tables.flatMap fun table => ids.map (pointerFragment table)

/-- The comparison of stored pointers with keys. -/
def refFragment (op : ListOp) (left : String) (ids : List String) (tables : Option (List String))
    (tunnel : Option String) : Fragment :=
  let target := fieldText left tunnel
  match tables with
  | some tables => between (target ++ " " ++ op.sign ++ " [") (join ", " (pointerFragments tables ids)) "]"
  | none =>
    match op with
    | .isIn | .notIn => .text ("meta::id(" ++ target ++ ") " ++ op.sign ++ " ") :: ofTexts ids
    | _ => .text ("array::map(" ++ target ++ ", |$v| meta::id($v)) " ++ op.sign ++ " ") :: ofTexts ids

namespace Filter

mutual

/-- A filter as it is written inside a condition. -/
def fragment : Filter → Fragment
  | .scalar op left right => .text (columnText left ++ " " ++ op.sign ++ " ") :: ofValue right
  | .list op left right => .text (columnText left ++ " " ++ op.sign ++ " ") :: ofValue (.array right)
  | .ref op left right tables tunnel => refFragment op left right tables tunnel
  | .null op left tunnel => ofText (fieldText left tunnel ++ " " ++ op.sign)
  | .and [] => ofText "true"
  | .and (child :: rest) => between "(" (join " AND " (fragment child :: fragments rest)) ")"
  | .or children => between "(" (join " OR " (fragments children)) ")"
  | .not child => between "!(" (fragment child) ")"
  | .nested path cardinality tunnel inner =>
    let target := fieldText path tunnel
    let records := if cardinality.isMany then target else "[" ++ target ++ "]"
    between ("array::len(" ++ records ++ "[WHERE ") (fragment inner) "]) > 0"
  | .falsy => ofText "false"

/-- The filters of a list as they are written inside a condition. -/
def fragments : List Filter → List Fragment
  | [] => []
  | f :: rest => fragment f :: fragments rest

end

/-- A filter as it is written as a whole condition: the parts of a conjunction stand without brackets. -/
def condition : Filter → Fragment
  | .and (child :: rest) => join " AND " (fragments (child :: rest))
  | other => fragment other

end Filter

end ThingQuery
