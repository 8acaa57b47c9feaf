import ThingQuery.Json.Decode
import ThingQuery.Query.Basic

/-!
# Query documents

A query is written as a JSON object whose members start with a dollar sign; members that are not known are passed over.
A null is the same as an absent member for keys, filter, fields, limit, offset and label, but not for the list of
excluded fields and the sort keys.
-/

namespace ThingQuery

open Json (optional? required? listOf? strings? string? bool?)

/-- A value that may be null. -/
def Json.nullable? {α : Type} (decode : Json → Option α) : Json → Option (Option α)
  | .null => some none
  | v => (decode v).map some

/-- One key or a list of keys. -/
def IdSelector.ofJson? : Json → Option IdSelector
  | .string id => some (.one id)
  | .array items => (strings? (.array items)).map .many
  | _ => none

/-- A sort key: a field, or an object with a field and a direction. -/
def SortKey.ofJson? : Json → Option SortKey
  | .string field => some ⟨field, .ascending⟩
  | .object members => do
    let field ← required? string? "field" members
    let descending ← optional? bool? false "desc" members
    some ⟨field, if descending then .descending else .ascending⟩
  | _ => none

/-- The options among the members of a query or of a nested selection. -/
def Options.ofMembers? (members : List (String × Json)) : Option Options := do
  let id ← optional? (Json.nullable? IdSelector.ofJson?) none "$id" members
  let filter ← optional? (Json.nullable? some) none "$filter" members
  let excluded ← optional? strings? [] "$excludedFields" members
  let limit ← optional? (Json.nullable? some) none "$limit" members
  let offset ← optional? (Json.nullable? some) none "$offset" members
  let sort ← optional? (listOf? SortKey.ofJson?) [] "$sort" members
  some { id, filter, excluded, limit, offset, sort }

mutual

/-- A selected field: a name, or an object with a path. -/
def Selector.ofJson? : Json → Option Selector
  | .string name => some (.field name)
  | .object members => do
    let path ← required? string? "$path" members
    let label ← optional? (Json.nullable? string?) none "$as" members
    let options ← Options.ofMembers? members
    let selection ← Selection.ofMembers? members
    some (.nested path label options selection)
  | _ => none

/-- A list of selected fields. -/
def Selector.ofItems? : List Json → Option (List Selector)
  | [] => some []
  | v :: rest => do
    let selector ← Selector.ofJson? v
    let selectors ← Selector.ofItems? rest
    some (selector :: selectors)

/-- The selection among the members of a query or of a nested selection. -/
def Selection.ofMembers? : List (String × Json) → Option Selection
  | [] => some .all
  | (key, v) :: rest =>
    if key = "$fields" then
      match v with
      | .null => some .all
      | .array items => (Selector.ofItems? items).map .only
      | _ => none
    else
      Selection.ofMembers? rest

end

/-- A query from its document. -/
def Query.ofJson? : Json → Option Query
  | .object members => do
    let thing ← required? string? "$thing" members
    let options ← Options.ofMembers? members
    let selection ← Selection.ofMembers? members
    some { thing, options, selection }
  | _ => none

end ThingQuery
