import ThingQuery.Plan.Bounds
import ThingQuery.Statement.Condition

/-!
# Statements

How a plan is written as a statement: its columns, its source, its condition and its bounds, in this order.  A plan that
returns one row is written so that the first row is taken.
-/

namespace ThingQuery

open Fragment (ofText ofTexts join between)

/-- The condition after its keyword. -/
def whereFragment : List Fragment → Fragment
  | [] => []
  | conditions => .text " WHERE " :: join " AND " conditions

namespace Source

/-- A source as it is written. -/
def fragment : Source → Fragment
  | .scan tables => ofText (", ".intercalate (tables.map nameText))
  | .pointer tables ids => join ", " (pointerFragments tables ids)
  | .subquery source oppositePath filter cardinality =>
    let select :=
      .text ("SELECT VALUE " ++ nameText oppositePath ++ " FROM ") ::
        (fragment source ++ whereFragment (filter.toList.map Filter.condition))
    if cardinality.isMany then between "array::distinct(array::flatten(" select "))"
    else between "array::distinct(" select ")"

end Source

/-- One value taken out of a list. -/
def firstOf (f : Fragment) : Fragment := between "array::first(" f ")"

/-- A list, or its first value when only one is wanted. -/
def Cardinality.collapse (cardinality : Cardinality) (f : Fragment) : Fragment :=
  if cardinality.isMany then f else firstOf f

/-- The order and the bounds of the rows. -/
def boundsText (sort : List SortKey) (columns : List Column) (limit offset : Option Nat) : String :=
  let keys := sort.map fun key => nameText (sortColumn key.field columns) ++ " " ++ key.direction.word
  (if keys.isEmpty then "" else " ORDER BY " ++ ", ".intercalate keys)
    ++ (match limit with
      | some n => " LIMIT " ++ toString n
      | none => "")
    ++ (match offset with
      | some n => " START " ++ toString n
      | none => "")

/-- The conditions of a nested column. -/
def NestedScope.conditions (scope : NestedScope) : List Fragment :=
  (scope.ids.toList.map fun ids => .text "meta::id(id) IN " :: ofTexts ids)
    ++ scope.filter.toList.map Filter.condition

namespace Column

mutual

/-- A column as it is written. -/
def fragment (column : Column) : Fragment :=
  let key := nameText column.outputKey
  match column with
  | .metadata .thing _ => ofText ("meta::tb(id) AS " ++ key)
  | .metadata .id _ => ofText ("meta::id(id) AS " ++ key)
  | .data path label =>
    if path = idColumn then ofText ("meta::id(id) AS " ++ key)
    else if label.isNone then ofText (nameText path)
    else ofText (nameText path ++ " AS " ++ key)
  | .reference path _ cardinality tunnel =>
    cardinality.collapse (ofText ("(SELECT VALUE meta::id(id) FROM $parent." ++ fieldText path tunnel ++ ")"))
      ++ ofText (" AS " ++ key)
  | .flex path _ cardinality =>
    let p := nameText path
    if cardinality.isMany then
      ofText ("array::map(" ++ p ++ ", |$v| IF type::is::record($v) THEN meta::id($v) ELSE $v END) AS " ++ key)
    else
      ofText ("(IF type::is::record(" ++ p ++ ") THEN meta::id(" ++ p ++ ") ELSE " ++ p ++ " END) AS " ++ key)
  | .nested scope columns =>
    let select :=
      .text "(SELECT " :: (listFragment columns
        ++ .text (" FROM $parent." ++ fieldText scope.path scope.tunnel)
        :: (whereFragment scope.conditions
          ++ ofText (boundsText scope.sort columns scope.limit scope.offset ++ ")")))
    scope.cardinality.collapse select ++ ofText (" AS " ++ key)

/-- A list of columns as it is written; without columns everything is returned. -/
def listFragment : List Column → Fragment
  | [] => ofText "*"
  | c :: rest => fragment c ++ restFragment rest

/-- Further columns as they are written. -/
def restFragment : List Column → Fragment
  | [] => []
  | c :: rest => .text ", " :: (fragment c ++ restFragment rest)

end

end Column

/-- A plan as it is written. -/
def Plan.fragment (plan : Plan) : Fragment :=
  plan.cardinality.collapse
    (.text "SELECT " :: (Column.listFragment plan.columns
      ++ .text " FROM " :: (plan.source.fragment
        ++ whereFragment (plan.filter.toList.map Filter.condition)
        ++ ofText (boundsText plan.sort plan.columns plan.limit plan.offset))))

/-- The statement of a plan, with its values bound in addition to the given parameters. -/
def Plan.statement (params : Params) (plan : Plan) : String × Params := plan.fragment.write params

end ThingQuery
