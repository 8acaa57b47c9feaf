import ThingQuery.Statement.Params

/-!
# Fragments of statements

A fragment is text with values in it.  Values never become text: when a fragment is written, each value is bound as a
parameter, from left to right, and its placeholder is written instead (`Fragment.write`).
-/

namespace ThingQuery

/-- A part of a fragment. -/
inductive Piece where
  | text (s : String)
  /-- A value that is bound as a parameter. -/
  | value (v : Json)

/-- Text with values in it. -/
abbrev Fragment := List Piece

namespace Fragment

/-- Text without values. -/
def ofText (s : String) : Fragment := [.text s]

/-- A single value. -/
def ofValue (v : Json) : Fragment := [.value v]

/-- A list of texts as one value. -/
def ofTexts (texts : List String) : Fragment := [.value (.array (texts.map .string))]

/-- The fragments with a text between any two of them. -/
def join (separator : String) : List Fragment → Fragment
  | [] => []
  | [f] => f
  | f :: g :: rest => f ++ .text separator :: join separator (g :: rest)

/-- The fragment between two texts. -/
def between (opening : String) (f : Fragment) (closing : String) : Fragment :=
  .text opening :: (f ++ [.text closing])

/-- Writes a fragment, binding its values from left to right. -/
def write (params : Params) : Fragment → String × Params
  | [] => ("", params)
  | .text s :: rest =>
    let (written, after) := write params rest
    (s ++ written, after)
  | .value v :: rest =>
    let (placeholder, bound) := params.bind v
    let (written, after) := write bound rest
    (placeholder ++ written, after)

end Fragment

end ThingQuery
