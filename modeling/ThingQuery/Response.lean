import ThingQuery.Query.Basic
import ThingQuery.Schema.Basic

/-!
# Responses

The raw rows that a query returns are shaped into the response that its caller asked for: metadata first, then the
selected fields under their keys and in the order of the selection.  Constant and computed fields are filled in here.
Nulls and absent values are left out unless they are asked for.
-/

namespace ThingQuery

/-- Why rows cannot be shaped. -/
inductive ResponseError where
  | unknownThing (thing : String)
  /-- The thing has no such field, or a selection is nested in a field that leads to no thing. -/
  | unknownField (thing field : String)
  deriving DecidableEq

namespace ResponseError

/-- The code of an error. -/
def code : ResponseError → String
  | .unknownThing _ => "BQL_ASSEMBLY_UNKNOWN_THING"
  | .unknownField .. => "BQL_ASSEMBLY_UNKNOWN_FIELD"

/-- The message of an error. -/
def message : ResponseError → String
  | .unknownThing thing => "Unknown thing: " ++ thing
  | .unknownField thing field => "Unknown field '" ++ field ++ "' on thing '" ++ thing ++ "'"

end ResponseError

/-- How responses are shaped. -/
structure ResponseStyle where
  /-- Whether objects start with their metadata. -/
  metadata : Bool := true
  /-- Whether nulls are kept and empty lists become null. -/
  returnNulls : Bool := false
  deriving DecidableEq

/-- The members of a stored row. -/
abbrev RawRow := List (String × Json)

namespace ResponseStyle

mutual

/-- Shapes every object in a raw value, which is a row, null or a list of such values. -/
def shapeRows (style : ResponseStyle) (shape : RawRow → Except ResponseError Json) :
    Json → Except ResponseError Json
  | .array [] => .ok (if style.returnNulls then .null else .array [])
  | .array (v :: rest) => do
    let shaped ← shapeRows style shape v
    let others ← shapeItems style shape rest
    pure (.array (shaped :: others))
  | .object row => shape row
  | .null => .ok .null
  | .bool b => .ok (.bool b)
  | .number n => .ok (.number n)
  | .string s => .ok (.string s)

/-- Shapes every object in a list of raw values. -/
def shapeItems (style : ResponseStyle) (shape : RawRow → Except ResponseError Json) :
    List Json → Except ResponseError (List Json)
  | [] => .ok []
  | v :: rest => do
    let shaped ← shapeRows style shape v
    let others ← shapeItems style shape rest
    pure (shaped :: others)

end

end ResponseStyle

/-- The metadata of a row: its thing, its key and whether it is an entity or a relation. -/
def metadataOf (schema : Schema) (thing : Thing) (options : Options) (row : RawRow) : List (String × Json) :=
  let name := ((row.lookup "$thing").bind Json.string?).getD thing.name
  let kind :=
    match schema.thing? name with
    | some t => t.kind
    | none => thing.kind
  let id :=
    ((row.lookup "$id").filter fun v => !v.isNull)
      <|> (options.id.bind IdSelector.single?).map Json.string
      <|> thing.idFields.findSome? fun field => row.lookup field
  [("$thing", .string name), ("$id", id.getD .null), ("$thingType", .string kind.word)]

/-- The value of a selected field of a row that is not nested; `key` is its key in the row. -/
def Field.valueIn (field : Field) (row : RawRow) (key : String) : Option Json :=
  let present := (row.lookup key).filter fun v => !v.isNull
  match field.kind with
  | .constant v => some v
  | .computed compute => some (compute (.object row))
  | .data .. => present
  | .ref .. | .link .. | .role .. =>
    present.map fun v =>
      match v with
      | .array [] => .null
      | other => other

namespace ResponseStyle

/-- The member of a response for a value that may be absent. -/
def member (style : ResponseStyle) (key : String) (value : Option Json) : List (String × Json) :=
  let v := value.getD .null
  if v.isNull && !style.returnNulls then [] else [(key, v)]

/-- The object of the metadata and the members of a response, of which the last one under a key counts. -/
def objectOf (style : ResponseStyle) (schema : Schema) (thing : Thing) (options : Options) (row : RawRow)
    (members : List (String × Json)) : Json :=
  let start := if style.metadata then metadataOf schema thing options row else []
  .object ((start ++ members).foldl (fun out (key, v) => Json.insertMember key v out) [])

end ResponseStyle

/-- A field that a response asks for. -/
def Thing.responseField (thing : Thing) (name : String) : Except ResponseError Field :=
  match thing.field? name with
  | some field => .ok field
  | none => .error (.unknownField thing.name name)

/-- A thing that a response asks for. -/
def Schema.responseThing (schema : Schema) (name : String) : Except ResponseError Thing :=
  match schema.thing? name with
  | some thing => .ok thing
  | none => .error (.unknownThing name)

/-- The member of a response for a field selected by its name. -/
def Thing.responseMember (style : ResponseStyle) (thing : Thing) (row : RawRow) (name : String) :
    Except ResponseError (List (String × Json)) := do
  let field ← thing.responseField name
  pure (style.member name (field.valueIn row name))

mutual

/-- The members of a response for a selection from a row. -/
def Selection.response (style : ResponseStyle) (schema : Schema) (thing : Thing) (excluded : List String) :
    Selection → RawRow → Except ResponseError (List (String × Json))
  | .all, row => do
    let names := (thing.fields.map (·.name)).filter fun name => !excluded.contains name
    let members ← names.mapM (thing.responseMember style row)
    pure members.flatten
  | .only selectors, row => Selector.listResponse style schema thing excluded selectors row

/-- The members of a response for the selected fields that are not excluded. -/
def Selector.listResponse (style : ResponseStyle) (schema : Schema) (thing : Thing) (excluded : List String) :
    List Selector → RawRow → Except ResponseError (List (String × Json))
  | [], _ => .ok []
  | selector :: rest, row =>
    if excluded.contains selector.fieldPath then Selector.listResponse style schema thing excluded rest row
    else do
      let member ← Selector.response style schema thing selector row
      let members ← Selector.listResponse style schema thing excluded rest row
      pure (member ++ members)

/-- The member of a response for a selected field. -/
def Selector.response (style : ResponseStyle) (schema : Schema) (thing : Thing) :
    Selector → RawRow → Except ResponseError (List (String × Json))
  | .field name, row => thing.responseMember style row name
  | .nested path label options selection, row => do
    let field ← thing.responseField path
    let key := label.getD path
    if field.kind.isVirtual then pure (style.member key (field.valueIn row key))
    else
      match field.kind.opposite? with
      | none => .error (.unknownField thing.name path)
      | some opposite => do
        let target ← schema.responseThing opposite.thing
        match (row.lookup key).filter fun v => !v.isNull with
        | none => pure (style.member key none)
        | some raw => do
          let v ← style.shapeRows (fun inner => do
            let members ← Selection.response style schema target options.excluded selection inner
            pure (style.objectOf schema target options inner members)) raw
          pure (style.member key (some v))

end

/-- The response to a query for a raw result: a list of rows, one row or null. -/
def Query.assemble (style : ResponseStyle) (schema : Schema) (query : Query) (raw : Json) :
    Except ResponseError Json := do
  let thing ← schema.responseThing query.thing
  style.shapeRows (fun row => do
    let members ← query.selection.response style schema thing query.options.excluded row
    pure (style.objectOf schema thing query.options row members)) raw

end ThingQuery
