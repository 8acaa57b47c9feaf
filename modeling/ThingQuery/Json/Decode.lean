import ThingQuery.Json.Document

/-!
# Records in JSON

How typed values are taken out of JSON values: members that may stand only once, words of a fixed list, lists of texts.
A record is written as an object with named members or, where its members have a fixed order, as a list of them.
-/

namespace ThingQuery

namespace Json

/-- The member of that name in a list of members that may repeat names: `none` when it is repeated, `some none` when
there is no such member. -/
def once? (key : String) (members : List (String × Json)) : Option (Option Json) :=
  match members.filter (·.1 == key) with
  | [] => some none
  | [(_, v)] => some (some v)
  | _ => none

/-- A member that has to stand exactly once. -/
def required? {α : Type} (decode : Json → Option α) (key : String) (members : List (String × Json)) : Option α :=
  match once? key members with
  | some (some v) => decode v
  | _ => none

/-- A member that may stand once and has a default. -/
def optional? {α : Type} (decode : Json → Option α) (default : α) (key : String)
    (members : List (String × Json)) : Option α :=
  match once? key members with
  | some (some v) => decode v
  | some none => some default
  | none => none

/-- A list whose items are decoded one by one. -/
def listOf? {α : Type} (decode : Json → Option α) : Json → Option (List α)
  | .array items => items.mapM decode
  | _ => none

/-- A list of texts. -/
def strings? : Json → Option (List String) := listOf? string?

/-- A list of at most as many values as there are names, as members under these names. -/
def positional? (names : List String) (items : List Json) : Option (List (String × Json)) :=
  if items.length ≤ names.length then some (names.zip items) else none

/-- The members of a record: those of an object, or those that a list gives in the order of `names`. -/
def record? (names : List String) : Json → Option (List (String × Json))
  | .object members => some members
  | .array items => positional? names items
  | _ => none

/-- The word of an alternative without content: the text itself, or an object whose only member has this name and an
empty content. -/
def word? (isEmpty : Json → Bool) : Json → Option String
  | .string w => some w
  | .object [(w, v)] => if isEmpty v then some w else none
  | _ => none

/-- Whether a value is null or an object without members. -/
def isUnit : Json → Bool
  | .null => true
  | .object [] => true
  | _ => false

end Json

end ThingQuery
