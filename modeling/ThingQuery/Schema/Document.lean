import ThingQuery.Json.Decode
import ThingQuery.Schema.Validate

/-!
# Schema documents

A schema is written as a JSON object that maps the name of each thing to its description.  Members that are not known
are passed over.  A document given as text may repeat names: a repeated thing takes its last description, while a
repeated member inside a description is a fault.
-/

namespace ThingQuery

open Json (once? required? optional? listOf? strings? string? bool?)

/-- The cardinality of a word. -/
def Cardinality.ofWord? : String → Option Cardinality
  | "ONE" => some .one
  | "MANY" => some .many
  | _ => none

/-- A cardinality inside a field. -/
def Cardinality.ofJson? (v : Json) : Option Cardinality := (Json.word? Json.isUnit v).bind Cardinality.ofWord?

/-- The kind of a thing. -/
def ThingKind.ofJson? (v : Json) : Option ThingKind :=
  match Json.word? Json.isNull v with
  | some "entity" => some .entity
  | some "relation" => some .relation
  | _ => none

/-- The content type of a data field. -/
def DataContent.ofJson? (v : Json) : Option DataContent :=
  (Json.word? Json.isUnit v).bind fun w => DataContent.all.find? (·.word == w)

/-- The content type of a reference field. -/
def RefContent.ofJson? (v : Json) : Option RefContent :=
  match Json.word? Json.isUnit v with
  | some "REF" => some .ref
  | some "FLEX" => some .flex
  | _ => none

/-- An index: its type and, according to it, one field or a list of fields. -/
def Index.ofJson? : Json → Option Index
  | .object members => do
    let type ← required? string? "type" members
    match type with
    | "single" => (required? string? "field" members).map .single
    | "composite" => (required? strings? "fields" members).map .composite
    | _ => none
  | .array [.string "single", .string field] => some (.single field)
  | .array [.string "composite", fields] => (strings? fields).map .composite
  | _ => none

/-- An opposite field. -/
def Opposite.ofJson? (v : Json) : Option Opposite := do
  let members ← Json.record? ["thing", "path", "cardinality"] v
  let thing ← required? string? "thing" members
  let path ← required? string? "path" members
  let cardinality ← required? Cardinality.ofJson? "cardinality" members
  some ⟨thing, path, cardinality⟩

/-- The target of a link. -/
def LinkTarget.ofJson? : Json → Option LinkTarget
  | .string "relation" => some .relation
  | .object [("relation", v)] => if v.isUnit then some .relation else none
  | .object [("role", .string name)] => some (.role name)
  | _ => none

/-- The word for the kind of a field, which may also be given by its place in the list of kinds. -/
def fieldKindWord? : Json → Option String
  | .string w => some w
  | .number (.int i) => if 0 ≤ i.val then ["constant", "data", "ref", "link", "role"][i.val.toNat]? else none
  | _ => none

/-- The kind of a field from the members of its description. -/
def FieldKind.ofMembers? (members : List (String × Json)) : Option FieldKind := do
  let kind ← required? fieldKindWord? "kind" members
  match kind with
  | "constant" => (required? some "value" members).map fun v => .constant v.merged
  | "data" => do
    let content ← required? DataContent.ofJson? "contentType" members
    let cardinality ← required? Cardinality.ofJson? "cardinality" members
    let unique ← optional? bool? false "unique" members
    some (.data content cardinality unique)
  | "ref" => do
    let content ← required? RefContent.ofJson? "contentType" members
    let cardinality ← required? Cardinality.ofJson? "cardinality" members
    some (.ref content cardinality)
  | "link" => do
    let cardinality ← required? Cardinality.ofJson? "cardinality" members
    let relation ← required? string? "relation" members
    let plays ← required? string? "plays" members
    let target ← required? LinkTarget.ofJson? "target" members
    let opposite ← required? Opposite.ofJson? "opposite" members
    some (.link cardinality relation plays target opposite)
  | "role" => do
    let cardinality ← required? Cardinality.ofJson? "cardinality" members
    let opposite ← required? Opposite.ofJson? "opposite" members
    some (.role cardinality opposite)
  | _ => none

/-- A field. -/
def Field.ofJson? : Json → Option Field
  | .object members => do
    let name ← required? string? "name" members
    let kind ← FieldKind.ofMembers? members
    some ⟨name, kind⟩
  | _ => none

/-- The members of a thing's description that are known, in their fixed order. -/
def Thing.memberNames : List String := ["name", "kind", "idFields", "subTypes", "indexes", "fields"]

/-- A thing from its description; the name comes from outside, though a name in the description has to be a text. -/
def Thing.ofJson? (name : String) (v : Json) : Option Thing := do
  let members ← Json.record? Thing.memberNames v
  let _ ← optional? string? "" "name" members
  let kind ← required? ThingKind.ofJson? "kind" members
  let idFields ← optional? strings? [] "idFields" members
  let subTypes ← optional? strings? [] "subTypes" members
  let indexes ← optional? (listOf? Index.ofJson?) [] "indexes" members
  let fields ← optional? (listOf? Field.ofJson?) [] "fields" members
  let thing : Thing := { name, kind, idFields, subTypes, indexes, fields }
  some thing.fillIdFields

namespace Schema

/-- The schema of a document. -/
def ofJson? : Json → Option Schema
  | .object members => (members.mapM fun (name, v) => Thing.ofJson? name v).map ofThings
  | _ => none

/-- The known members among those of a thing's description. -/
def knownMembers (members : List (List Json.StringPart × Json.Document)) :
    List (List Json.StringPart × Json.Document) :=
  members.filter fun (key, _) =>
    match Json.textOf? key with
    | some name => Thing.memberNames.contains name
    | none => true

/-- The document without the members that are passed over in the descriptions of things. -/
def prune : Json.Document → Json.Document
  | .object things =>
    .object (things.map fun (name, thing) =>
      (name, match thing with
        | .object members => .object (knownMembers members)
        | other => other))
  | other => other

/-- The schema of a document given as text. -/
def ofText? (text : String) : Option Schema := do
  let document ← Json.Document.ofText? text
  let v ← (prune document).plain? Json.Document.maxDepth
  ofJson? v

/-- Reads a schema from text and accepts it when it is sound. -/
def loadText (origin text : String) : Logged (Except SchemaError Schema) := accept origin (ofText? text)

/-- Takes a schema from a decoded document and accepts it when it is sound. -/
def loadJson (origin : String) (v : Json) : Logged (Except SchemaError Schema) := accept origin (ofJson? v)

/-- Reads a schema from the bytes of a file, which have to be there and have to be UTF-8. -/
def loadFile (name : String) (bytes : Option ByteArray) : Logged (Except SchemaError Schema) :=
  match bytes.bind String.fromUTF8? with
  | none => ⟨[], .error (.malformed name true)⟩
  | some text => loadText name text

end Schema

end ThingQuery
