import ThingQuery.Json.Decode
import ThingQuery.Json.Printer

/-!
# Configuration

Three switches: whether rows carry metadata, whether nulls are returned, and whether plans are optimized.  They are
written as a JSON object, whose other members are passed over, or as a list of up to three truth values.
-/

namespace ThingQuery

/-- How batches are handled. -/
structure Config where
  metadata : Bool := true
  /-- Whether nulls are kept and empty results become null. -/
  returnNulls : Bool := false
  optimize : Bool := true
  deriving DecidableEq

namespace Config

/-- The names of the switches in their order. -/
def memberNames : List String := ["metadata", "returnNulls", "optimize"]

/-- The configuration of a document. -/
def ofJson? (v : Json) : Option Config := do
  let members ← Json.record? memberNames v
  let metadata ← Json.optional? Json.bool? true "metadata" members
  let returnNulls ← Json.optional? Json.bool? false "returnNulls" members
  let optimize ← Json.optional? Json.bool? true "optimize" members
  some { metadata, returnNulls, optimize }

/-- The document without the members that are passed over. -/
def prune : Json.Document → Json.Document
  | .object members =>
    .object (members.filter fun (key, _) =>
      match Json.textOf? key with
      | some name => memberNames.contains name
      | none => true)
  | other => other

/-- The configuration of a document given as text. -/
def ofText? (text : String) : Option Config := do
  let document ← Json.Document.ofText? text
  let v ← (prune document).plain? Json.Document.maxDepth
  ofJson? v

/-- The configuration as a JSON object. -/
def toJson (config : Config) : Json :=
  .object [("metadata", .bool config.metadata), ("returnNulls", .bool config.returnNulls),
    ("optimize", .bool config.optimize)]

/-- The default switches without optimization. -/
def unoptimized : Config := { optimize := false }

end Config

end ThingQuery
