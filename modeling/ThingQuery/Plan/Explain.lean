import ThingQuery.Plan.Basic
import ThingQuery.Plan.Error

/-!
# Explanations of plans

What is told about the plan of a query: the way to its rows, its predicates and its bounds, or why it was refused.
-/

namespace ThingQuery

/-- What is told about a plan. -/
structure PlanSummary where
  accessPath : String
  /-- The tables of the innermost source. -/
  tables : List String
  /-- The field that leads back from the other end of a relationship. -/
  via : Option String
  /-- The parts of the filter in the order in which they are tried. -/
  predicates : List String
  /-- Whether one row is returned or a list. -/
  cardinality : Cardinality
  sort : List String
  limit : Option Nat
  offset : Option Nat
  deriving DecidableEq

/-- What is told about a query. -/
inductive Explanation where
  | accepted (summary : PlanSummary)
  | rejected (error : PlanError)

/-- The field that leads back from the other end of a relationship. -/
def Source.via? : Source → Option String
  | .subquery _ oppositePath _ _ => some oppositePath
  | _ => none

/-- The summary of a plan. -/
def Plan.summary (plan : Plan) : PlanSummary where
  accessPath := plan.source.accessPath
  tables := plan.source.tables
  via := plan.source.via?
  predicates :=
    match plan.filter with
    | some filter => filter.conjuncts.map Filter.toText
    | none => []
  cardinality := plan.cardinality
  sort := plan.sort.map fun key => key.field ++ " " ++ key.direction.word
  limit := plan.limit
  offset := plan.offset

/-- The lines of a list under a heading; an empty list has none. -/
def headedLine (heading : String) (items : List String) : List String :=
  if items.isEmpty then [] else [heading ++ ": " ++ ", ".intercalate items]

/-- The line of a value that may be absent. -/
def optionalLine (heading : String) (value : Option String) : List String :=
  headedLine heading value.toList

/-- The lines of a summary. -/
def PlanSummary.lines (summary : PlanSummary) : List String :=
  ["Status: ACCEPTED", "Access Path: " ++ summary.accessPath]
    ++ headedLine "Things" summary.tables
    ++ optionalLine "Via" summary.via
    ++ (if summary.predicates.isEmpty then [] else "Predicates:" :: summary.predicates.map ("  - " ++ ·))
    ++ ["Cardinality: " ++ summary.cardinality.word]
    ++ headedLine "Sort" summary.sort
    ++ optionalLine "Limit" (summary.limit.map toString)
    ++ optionalLine "Offset" (summary.offset.map toString)

namespace Explanation

/-- The lines of an explanation. -/
def lines : Explanation → List String
  | .accepted summary => summary.lines
  | .rejected error => ["Status: REJECTED", "Error Code: " ++ error.code, "Reason: " ++ error.message]

/-- The text of an explanation. -/
def toText (explanation : Explanation) : String :=
  String.join (("=== EXPLAIN PLAN ===" :: explanation.lines).map (· ++ "\n"))

end Explanation

end ThingQuery
