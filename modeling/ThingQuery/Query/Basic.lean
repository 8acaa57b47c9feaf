import ThingQuery.Json.Basic

/-!
# Queries

A query names a thing and says which of its records are wanted (`Options`) and which of their fields (`Selection`).
A selected field may carry options and a selection of its own; they then speak about the thing at its other end.
-/

namespace ThingQuery

/-- The keys of the wanted records. -/
inductive IdSelector where
  /-- One key, given as a single value. -/
  | one (id : String)
  | many (ids : List String)
  deriving DecidableEq

namespace IdSelector

/-- The keys as a list. -/
def ids : IdSelector → List String
  | .one id => [id]
  | .many ids => ids

/-- The key, if it is given as a single value. -/
def single? : IdSelector → Option String
  | .one id => some id
  | .many _ => none

end IdSelector

/-- The direction of a sort. -/
inductive Direction where
  | ascending
  | descending
  deriving DecidableEq

/-- The word of a direction. -/
def Direction.word : Direction → String
  | .ascending => "ASC"
  | .descending => "DESC"

/-- A key by which rows are sorted. -/
structure SortKey where
  /-- The column, by the key under which it is returned or by its path. -/
  field : String
  direction : Direction
  deriving DecidableEq

/-- Which records are wanted, and which part of them in which order. -/
structure Options where
  id : Option IdSelector := none
  filter : Option Json := none
  excluded : List String := []
  limit : Option Json := none
  offset : Option Json := none
  /-- The sort keys, most important first. -/
  sort : List SortKey := []

namespace Options

/-- Asks for the record with one key. -/
def withId (options : Options) (id : String) : Options := { options with id := some (.one id) }

/-- Asks for the records with the listed keys. -/
def withIds (options : Options) (ids : List String) : Options := { options with id := some (.many ids) }

/-- Asks for the records that satisfy a condition. -/
def withFilter (options : Options) (filter : Json) : Options := { options with filter := some filter }

/-- Leaves fields out. -/
def withExcluded (options : Options) (names : List String) : Options := { options with excluded := names }

/-- Bounds the number of records. -/
def withLimit (options : Options) (limit : Json) : Options := { options with limit := some limit }

/-- Skips records. -/
def withOffset (options : Options) (offset : Json) : Options := { options with offset := some offset }

/-- Adds a sort key after the others. -/
def addSort (options : Options) (key : SortKey) : Options := { options with sort := options.sort ++ [key] }

end Options

mutual

/-- A selected field. -/
inductive Selector where
  | field (name : String)
  /-- A link or a role with a selection from the thing at its other end. -/
  | nested (path : String) (label : Option String) (options : Options) (selection : Selection)

/-- The selected fields of a thing. -/
inductive Selection where
  | all
  | only (selectors : List Selector)

end

namespace Selector

/-- The name of the selected field. -/
def fieldPath : Selector → String
  | .field name => name
  | .nested path _ _ _ => path

/-- The key of the selected field in a response. -/
def outputKey : Selector → String
  | .field name => name
  | .nested path label _ _ => label.getD path

end Selector

/-- The listed fields, if there is a list. -/
def Selection.selectors? : Selection → Option (List Selector)
  | .all => none
  | .only selectors => some selectors

/-- A query for records of a thing. -/
structure Query where
  thing : String
  options : Options := {}
  selection : Selection := .all

end ThingQuery
