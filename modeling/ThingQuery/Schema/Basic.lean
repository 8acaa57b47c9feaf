import ThingQuery.Json.Basic
import ThingQuery.NameMap

/-!
# Schemas

A schema declares things (entities and relations) by name.  A thing has fields of six kinds, of which constant and
computed ones are never stored; link and role fields point to records of another thing, whose opposite field points
back.  Subtypes are tables of their own: a thing is stored in the tables named by `Thing.variants`.
-/

namespace ThingQuery

/-- The column that holds the key of a record. -/
def idColumn : String := "id"

/-- Whether there is one value or many. -/
inductive Cardinality where
  | one
  | many
  deriving DecidableEq

namespace Cardinality

/-- The word of a cardinality. -/
def word : Cardinality → String
  | .one => "ONE"
  | .many => "MANY"

/-- Whether there may be many values. -/
def isMany : Cardinality → Bool
  | .one => false
  | .many => true

end Cardinality

/-- Whether a thing is an entity or a relation between things. -/
inductive ThingKind where
  | entity
  | relation
  deriving DecidableEq

/-- The word of a thing's kind. -/
def ThingKind.word : ThingKind → String
  | .entity => "entity"
  | .relation => "relation"

/-- An index of a thing. -/
inductive Index where
  | single (field : String)
  /-- An index over a list of fields in order. -/
  | composite (fields : List String)
  deriving DecidableEq

/-- The fields of an index in order. -/
def Index.fields : Index → List String
  | .single field => [field]
  | .composite fields => fields

/-- What a data field holds. -/
inductive DataContent where
  | id
  | text
  | email
  | number
  | boolean
  | date
  | json
  deriving DecidableEq

namespace DataContent

/-- The word of a content type. -/
def word : DataContent → String
  | .id => "ID"
  | .text => "TEXT"
  | .email => "EMAIL"
  | .number => "NUMBER"
  | .boolean => "BOOLEAN"
  | .date => "DATE"
  | .json => "JSON"

/-- All content types. -/
def all : List DataContent := [.id, .text, .email, .number, .boolean, .date, .json]

end DataContent

/-- What a reference field holds. -/
inductive RefContent where
  /-- A pointer to a record of any table. -/
  | ref
  | flex
  deriving DecidableEq

/-- The word of a reference content type. -/
def RefContent.word : RefContent → String
  | .ref => "REF"
  | .flex => "FLEX"

/-- The field on the other side of a relationship. -/
structure Opposite where
  /-- The thing that has the opposite field. -/
  thing : String
  path : String
  /-- The cardinality of the opposite field. -/
  cardinality : Cardinality
  deriving DecidableEq

/-- Where a link leads. -/
inductive LinkTarget where
  | relation
  /-- Through the relation to the players of one of its roles. -/
  | role (name : String)
  deriving DecidableEq

/-- The kind of a field with what belongs to it. -/
inductive FieldKind where
  /-- A value that every response carries. -/
  | constant (value : Json)
  /-- A value computed from the stored row. -/
  | computed (compute : Json → Json)
  | data (content : DataContent) (cardinality : Cardinality) (unique : Bool)
  /-- A stored pointer to a record of any table. -/
  | ref (content : RefContent) (cardinality : Cardinality)
  /-- A pointer to a relation in which the thing plays a role, or through it to other players. -/
  | link (cardinality : Cardinality) (relation plays : String) (target : LinkTarget) (opposite : Opposite)
  /-- A pointer from a relation to the players of a role. -/
  | role (cardinality : Cardinality) (opposite : Opposite)

namespace FieldKind

/-- The word of a field's kind. -/
def word : FieldKind → String
  | .constant _ => "constant"
  | .computed _ => "computed"
  | .data .. => "data"
  | .ref .. => "ref"
  | .link .. => "link"
  | .role .. => "role"

/-- The cardinality of a stored field. -/
def cardinality? : FieldKind → Option Cardinality
  | .constant _ | .computed _ => none
  | .data _ c _ | .ref _ c | .link c _ _ _ _ | .role c _ => some c

/-- The opposite field of a link or a role. -/
def opposite? : FieldKind → Option Opposite
  | .link _ _ _ _ o | .role _ o => some o
  | _ => none

/-- Whether the field is never stored nor queried. -/
def isVirtual : FieldKind → Bool
  | .constant _ | .computed _ => true
  | _ => false

/-- Whether the field is a link or a role. -/
def isRelational : FieldKind → Bool
  | .link .. | .role .. => true
  | _ => false

/-- Whether the field is a role. -/
def isRole : FieldKind → Bool
  | .role .. => true
  | _ => false

/-- Whether the field is a link to the relation itself. -/
def isRelationLink : FieldKind → Bool
  | .link _ _ _ .relation _ => true
  | _ => false

/-- Whether the field is a data field that holds the key of its record. -/
def isIdData : FieldKind → Bool
  | .data .id _ _ => true
  | _ => false

/-- Whether no two records hold the same value in the field. -/
def isUnique : FieldKind → Bool
  | .data _ _ unique => unique
  | _ => false

end FieldKind

/-- A named field. -/
structure Field where
  /-- The name of the field, which is also its column. -/
  name : String
  kind : FieldKind

namespace Field

/-- The data field that holds the key of a record. -/
def key (name : String) : Field := ⟨name, .data .id .one true⟩

/-- A data field for texts. -/
def text (name : String) (cardinality : Cardinality) : Field := ⟨name, .data .text cardinality false⟩

/-- A data field for a text that no two records share. -/
def uniqueText (name : String) : Field := ⟨name, .data .text .one true⟩

end Field

/-- The role of the relation through which a link leads on, if it does. -/
def Field.tunnel? (field : Field) : Option String :=
  match field.kind with
  | .link _ _ _ (.role name) _ => some name
  | _ => none

/-- An entity or a relation. -/
structure Thing where
  /-- The name of the thing, which is also its table. -/
  name : String
  kind : ThingKind
  /-- The fields that hold the key of a record. -/
  idFields : List String := []
  /-- All subtypes, also indirect ones. -/
  subTypes : List String := []
  indexes : List Index := []
  /-- The fields in the order of their declaration. -/
  fields : List Field := []

namespace Thing

/-- Adds a field at the end; a data field for the key becomes a key field. -/
def addField (thing : Thing) (field : Field) : Thing :=
  { thing with
    idFields := if field.kind.isIdData then thing.idFields ++ [field.name] else thing.idFields
    fields := thing.fields ++ [field] }

/-- Adds a subtype at the end. -/
def addSubType (thing : Thing) (name : String) : Thing := { thing with subTypes := thing.subTypes ++ [name] }

/-- Declares an index after the others. -/
def addIndex (thing : Thing) (index : Index) : Thing := { thing with indexes := thing.indexes ++ [index] }

/-- The field of a name; of several the first. -/
def field? (thing : Thing) (name : String) : Option Field := thing.fields.find? (·.name == name)

/-- Whether the field of that name holds the key. -/
def isIdField (thing : Thing) (name : String) : Bool := thing.idFields.contains name

/-- The tables of the thing: its own and those of its subtypes. -/
def variants (thing : Thing) : List String := thing.name :: thing.subTypes

/-- Whether a lookup by the column is served by an index; links and roles always are. -/
def isIndexed (thing : Thing) (path : String) : Bool :=
  path == idColumn || thing.isIdField path ||
    (match thing.field? path with
    | some field => field.kind.isRelational
    | none => false) ||
    thing.indexes.any fun index =>
      match index with
      | .single field => field == path
      | .composite fields => fields.head? == some path

/-- The composite indexes, longest first, in the order of their declaration among equally long ones. -/
def compositeIndexes (thing : Thing) : List (List String) :=
  (thing.indexes.filterMap fun index =>
    match index with
    | .composite fields => some fields
    | .single _ => none).mergeSort fun a b => decide (b.length ≤ a.length)

/-- The thing with the key fields filled in from its data fields when none is named. -/
def fillIdFields (thing : Thing) : Thing :=
  if thing.idFields.isEmpty then
    { thing with idFields := (thing.fields.filter (·.kind.isIdData)).map (·.name) }
  else
    thing

end Thing

/-- Things by name. -/
structure Schema where
  /-- The things in the order of their names. -/
  things : NameMap Thing
  /-- Every thing stands under its own name. -/
  named : ∀ e ∈ things.entries, e.2.name = e.1

namespace Schema

/-- The schema without things. -/
def empty : Schema := ⟨NameMap.empty, fun _ h => absurd h List.not_mem_nil⟩

/-- Declares a thing in place of an earlier one of its name. -/
def declare (schema : Schema) (thing : Thing) : Schema where
  things := schema.things.insert thing.name thing
  named e he := by
    rcases eq_or_mem_of_mem_insertNamed he with rfl | he
    · rfl
    · exact schema.named e he

/-- The schema of a list of things; of several of one name the last counts. -/
def ofThings (things : List Thing) : Schema := things.foldl declare empty

/-- The thing of a name. -/
def thing? (schema : Schema) (name : String) : Option Thing := schema.things.get? name

/-- The field that an opposite names. -/
def oppositeField? (schema : Schema) (opposite : Opposite) : Option Field :=
  (schema.thing? opposite.thing).bind (·.field? opposite.path)

/-- Whether a condition on the field may be answered from the other side: by looking through the opposite thing and
following its opposite field back.  This holds between links to a relation and roles of it. -/
def isTraversable (schema : Schema) (field : Field) : Bool :=
  match field.kind with
  | .link _ _ _ .relation opposite => (schema.oppositeField? opposite).any (·.kind.isRole)
  | .role _ opposite => (schema.oppositeField? opposite).any (·.kind.isRelationLink)
  | _ => false

end Schema

end ThingQuery
