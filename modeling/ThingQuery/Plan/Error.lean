import ThingQuery.Json.Printer

/-!
# Why queries are refused

Every reason for which a query cannot be planned, with its code and its message.
-/

namespace ThingQuery

/-- Which bound of a page of rows is meant. -/
inductive Bound where
  | limit
  | offset
  deriving DecidableEq

/-- The key of a bound in a query. -/
def Bound.key : Bound → String
  | .limit => "$limit"
  | .offset => "$offset"

/-- Why a query is refused. -/
inductive PlanError where
  | unknownThing (thing : String)
  | unknownField (thing field : String)
  /-- A selection is nested in a field that leads to no thing. -/
  | notNestable (field thing kind : String)
  /-- A constant or computed field is filtered. -/
  | virtualFilter (field : String)
  /-- A field that may hold plain values is filtered as a reference. -/
  | flexFilter (field : String)
  | relationOrder (field op : String)
  | unknownOperator (field op : String)
  /-- A sort key is not among the columns. -/
  | sortNotProjected (field : String)
  | boundNotNumber (bound : Bound) (value : Json)
  | boundNegative (bound : Bound) (number : JsonNumber)
  /-- A bound is not a whole number that fits in 64 bits. -/
  | boundNotInteger (bound : Bound) (number : JsonNumber)
  /-- A filter is neither an object nor a list. -/
  | filterShape (value : Json)
  /-- A connective is given neither an object nor a list. -/
  | connectiveShape (connective : String)
  | unknownConnective (connective : String)
  /-- A filter on a link or a role has a wrong shape. -/
  | relationShape (field : String) (value : Json)
  /-- A test for existence is not given a truth value. -/
  | existsShape (field : String)
  /-- Keys are neither a text nor a list of texts. -/
  | idsShape (field : String) (value : Json)
  /-- A field is filtered by an object without operators. -/
  | noOperators (field : String)
  | nullOperand (field op : String)
  | listOperand (field op : String)
  /-- A data field is filtered by something that is not an operator. -/
  | notOperator (field key : String)
  /-- Two columns are returned under one key. -/
  | duplicateKey (key : String)

namespace PlanError

/-- The code of an error. -/
def code : PlanError → String
  | .unknownThing _ | .unknownField .. | .notNestable .. => "BQL_SCHEMA_MISMATCH"
  | .virtualFilter _ | .flexFilter _ | .relationOrder .. | .unknownOperator .. => "BQL_UNSUPPORTED_FILTER"
  | .sortNotProjected _ => "BQL_INVALID_SORT"
  | .boundNotNumber .. | .boundNegative .. | .boundNotInteger .. => "BQL_INVALID_PAGINATION"
  | .filterShape _ | .connectiveShape _ | .unknownConnective _ | .relationShape .. | .existsShape _ | .idsShape ..
  | .noOperators _ | .nullOperand .. | .listOperand .. | .notOperator .. => "BQL_INVALID_FILTER_SHAPE"
  | .duplicateKey _ => "BQL_DUPLICATE_ALIAS"

/-- The field that an error is about. -/
def field? : PlanError → Option String
  | .unknownThing _ | .notNestable .. | .boundNotNumber .. | .boundNegative .. | .boundNotInteger ..
  | .filterShape _ => none
  | .unknownField _ field => some field
  | .virtualFilter field | .flexFilter field | .relationOrder field _ | .unknownOperator field _
  | .sortNotProjected field | .relationShape field _ | .existsShape field | .idsShape field _ | .noOperators field
  | .nullOperand field _ | .listOperand field _ | .notOperator field _ => some field
  | .connectiveShape connective | .unknownConnective connective => some connective
  | .duplicateKey key => some key

/-- The message of a filter that is not supported. -/
def unsupported (field reason : String) : String := "Unsupported filter on '" ++ field ++ "': " ++ reason

/-- The message of an error. -/
def message : PlanError → String
  | .unknownThing thing => "Thing '" ++ thing ++ "' not found in schema"
  | .unknownField thing field => "Field '" ++ field ++ "' not found on '" ++ thing ++ "'"
  | .notNestable field thing kind =>
    "Field '" ++ field ++ "' on '" ++ thing ++ "' is a " ++ kind ++ " field and cannot be nested"
  | .virtualFilter field => unsupported field "constant and computed fields are not stored"
  | .flexFilter field => unsupported field "FLEX references cannot be filtered"
  | .relationOrder field op => unsupported field (op ++ " is not supported on relationship fields")
  | .unknownOperator field op => unsupported field ("Unknown operator '" ++ op ++ "'")
  | .sortNotProjected field => "Sort field '" ++ field ++ "' is not part of the projection"
  | .boundNotNumber bound value => bound.key ++ " must be a number, got " ++ value.toText
  | .boundNegative bound number => bound.key ++ " must be non-negative, got " ++ number.toText
  | .boundNotInteger bound number => bound.key ++ " must be an integer, got " ++ number.toText
  | .filterShape value => "Filter must be an object or an array, got " ++ value.toText
  | .connectiveShape connective => connective ++ " expects an object or an array"
  | .unknownConnective connective => "Unknown connective '" ++ connective ++ "'"
  | .relationShape _ value => "Invalid relationship filter " ++ value.toText
  | .existsShape _ => "$exists expects a boolean"
  | .idsShape _ value => "Expected an id or an array of ids, got " ++ value.toText
  | .noOperators _ => "Empty operator object"
  | .nullOperand _ op => op ++ " does not accept null"
  | .listOperand _ op => op ++ " expects an array"
  | .notOperator _ key => "Data field filters take operators, found key '" ++ key ++ "'"
  | .duplicateKey key => "Output key '" ++ key ++ "' is projected more than once"

/-- How serious every refusal is. -/
def severity : String := "REJECT"

/-- Severity, code and message in one line. -/
def display (error : PlanError) : String := "[" ++ severity ++ "] " ++ error.code ++ ": " ++ error.message

end PlanError

end ThingQuery
