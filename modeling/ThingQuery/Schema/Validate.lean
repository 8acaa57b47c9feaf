import ThingQuery.Schema.Basic
import ThingQuery.Log

/-!
# Sound schemas

A schema is sound when every subtype is a thing, every index field is a field of its thing, and every opposite is a
field of a thing.  `Schema.validate` reports the first fault, going through the things by name and in each of them
through subtypes, indexes and fields.
-/

namespace ThingQuery

/-- Why a schema is refused. -/
inductive SchemaError where
  /-- The document cannot be read; `reading` tells that there was no text to read. -/
  | malformed (origin : String) (reading : Bool)
  /-- A link or a role has an opposite that does not exist. -/
  | unknownOpposite (thing field oppositeThing oppositePath : String)
  | unknownSubType (thing subType : String)
  /-- An index names a field that its thing does not have. -/
  | unknownIndexField (thing field : String)
  deriving DecidableEq

namespace SchemaError

/-- The code of an error. -/
def code : SchemaError → String
  | .malformed .. => "BQL_SCHEMA_MALFORMED"
  | .unknownOpposite .. => "BQL_SCHEMA_UNKNOWN_OPPOSITE"
  | .unknownSubType .. => "BQL_SCHEMA_UNKNOWN_SUBTYPE"
  | .unknownIndexField .. => "BQL_SCHEMA_UNKNOWN_INDEX_FIELD"

/-- The message of an error. -/
def message : SchemaError → String
  | .malformed origin reading =>
    "Malformed schema '" ++ origin ++ "'" ++ (if reading then ": Failed to read file" else "")
  | .unknownOpposite thing field oppositeThing oppositePath =>
    "Field '" ++ thing ++ "." ++ field ++ "' has opposite '" ++ oppositeThing ++ "." ++ oppositePath
      ++ "' which does not exist"
  | .unknownSubType thing subType => "Thing '" ++ thing ++ "' lists unknown subtype '" ++ subType ++ "'"
  | .unknownIndexField thing field => "Index on '" ++ thing ++ "' references unknown field '" ++ field ++ "'"

/-- The code and the message in one line. -/
def display (error : SchemaError) : String := error.code ++ ": " ++ error.message

end SchemaError

namespace Schema

/-- The first fault of a thing. -/
def faultOf? (schema : Schema) (thing : Thing) : Option SchemaError :=
  (thing.subTypes.findSome? fun subType =>
    if (schema.thing? subType).isNone then some (.unknownSubType thing.name subType) else none) <|>
  ((thing.indexes.flatMap (·.fields)).findSome? fun field =>
    if (thing.field? field).isNone then some (.unknownIndexField thing.name field) else none) <|>
  (thing.fields.findSome? fun field =>
    match field.kind.opposite? with
    | some opposite =>
      if (schema.oppositeField? opposite).isNone then
        some (.unknownOpposite thing.name field.name opposite.thing opposite.path)
      else
        none
    | none => none)

/-- Succeeds when the schema is sound and reports its first fault otherwise. -/
def validate (schema : Schema) : Except SchemaError Unit :=
  match schema.things.values.findSome? schema.faultOf? with
  | some error => .error error
  | none => .ok ()

/-- The schema of a decoded document, if it could be decoded and is sound, with the log entry that reports it. -/
def accept (origin : String) (decoded : Option Schema) : Logged (Except SchemaError Schema) :=
  match decoded with
  | none => ⟨[], .error (.malformed origin false)⟩
  | some schema =>
    match schema.validate with
    | .error error => ⟨[], .error error⟩
    | .ok _ =>
      ⟨[.ofEvent .schemaLoaded [("origin", origin), ("things", toString schema.things.size)]], .ok schema⟩

end Schema

end ThingQuery
