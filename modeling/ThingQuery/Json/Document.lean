import ThingQuery.Json.Token

/-!
# JSON documents

A document is the tree of a JSON text before its strings and numbers are given values.  A text is read into a document
by a machine that takes one token at a time (`Reader.step`).  The plain value of a document (`Document.plain?`) exists
when every string is a text, every number is in range and the nesting is at most 127 deep; it still repeats the member
names that the text repeats, and `merged` makes them distinct.
-/

namespace ThingQuery

namespace Json

/-- The tree of a JSON text as it is written. -/
inductive Document where
  | null
  | bool (b : Bool)
  | numeral (n : Numeral)
  | string (parts : List StringPart)
  | array (items : List Document)
  /-- The members of an object with all repetitions. -/
  | object (members : List (List StringPart × Document))

instance : Inhabited Document := ⟨.null⟩

/-- A list or an object that is not closed yet, with its finished parts in reverse order. -/
inductive Opened where
  | array (done : List Document)
  /-- An object that waits for the value of the member called `name`. -/
  | object (done : List (List StringPart × Document)) (name : List StringPart)

/-- What the reader waits for. -/
inductive Reader where
  /-- A value inside the opened ones, innermost first. -/
  | value (opened : List Opened)
  /-- The first item of a list, or its end. -/
  | firstItem (opened : List Opened)
  /-- The first name in an object, or its end. -/
  | firstKey (opened : List Opened)
  /-- A name in an object that has some finished members. -/
  | key (done : List (List StringPart × Document)) (opened : List Opened)
  | colon (done : List (List StringPart × Document)) (name : List StringPart) (opened : List Opened)
  /-- A comma or the end of the innermost opened list or object, after the value `last` in it. -/
  | next (last : Document) (inner : Opened) (opened : List Opened)
  | finished (document : Document)

namespace Reader

/-- The state after a finished value. -/
def complete (d : Document) : List Opened → Reader
  | [] => .finished d
  | inner :: opened => .next d inner opened

/-- The document of a token that is a whole value. -/
def scalar? : Token → Option Document
  | .null => some .null
  | .bool b => some (.bool b)
  | .numeral n => some (.numeral n)
  | .string parts => some (.string parts)
  | _ => none

/-- The state after the first token of a value. -/
def startValue (opened : List Opened) : Token → Option Reader
  | .openArray => some (.firstItem opened)
  | .openObject => some (.firstKey opened)
  | t => (scalar? t).map (complete · opened)

/-- The state after one more token, or `none` when the token cannot stand there. -/
def step : Reader → Token → Option Reader
  | .value opened, t => startValue opened t
  | .firstItem opened, .closeArray => some (complete (.array []) opened)
  | .firstItem opened, t => startValue (.array [] :: opened) t
  | .firstKey opened, .closeObject => some (complete (.object []) opened)
  | .firstKey opened, .string parts => some (.colon [] parts opened)
  | .key done opened, .string parts => some (.colon done parts opened)
  | .colon done name opened, .colon => some (.value (.object done name :: opened))
  | .next last (.array done) opened, .comma => some (.value (.array (last :: done) :: opened))
  | .next last (.array done) opened, .closeArray => some (complete (.array (last :: done).reverse) opened)
  | .next last (.object done name) opened, .comma => some (.key ((name, last) :: done) opened)
  | .next last (.object done name) opened, .closeObject =>
    some (complete (.object ((name, last) :: done).reverse) opened)
  | _, _ => none

/-- The document, if the text may end here. -/
def document? : Reader → Option Document
  | .finished d => some d
  | _ => none

end Reader

namespace Document

/-- The document of a text, or `none` when the text is not JSON. -/
def ofText? (text : String) : Option Document :=
  (tokenize text.toList).bind fun tokens =>
    (tokens.foldlM Reader.step (.value [])).bind Reader.document?

mutual

/-- The value of a document that is nested at most `room` deep, with all repetitions of member names. -/
def plain? (room : Nat) : Document → Option Json
  | .null => some .null
  | .bool b => some (.bool b)
  | .numeral n => n.number?.map Json.number
  | .string parts => (textOf? parts).map Json.string
  | .array items =>
    match room with
    | 0 => none
    | room + 1 => (plainItems? room items).map Json.array
  | .object members =>
    match room with
    | 0 => none
    | room + 1 => (plainMembers? room members).map Json.object

/-- The values of the items of a list. -/
def plainItems? (room : Nat) : List Document → Option (List Json)
  | [] => some []
  | d :: rest =>
    match plain? room d, plainItems? room rest with
    | some v, some vs => some (v :: vs)
    | _, _ => none

/-- The members of an object. -/
def plainMembers? (room : Nat) : List (List StringPart × Document) → Option (List (String × Json))
  | [] => some []
  | (key, d) :: rest =>
    match textOf? key, plain? room d, plainMembers? room rest with
    | some k, some v, some later => some ((k, v) :: later)
    | _, _, _ => none

end

/-- How deep lists and objects may be nested. -/
def maxDepth : Nat := 127

end Document

/-- Puts a member in front of the later ones, where a repetition of its name gives it the last value. -/
def mergeMember (key : String) (value : Json) (later : List (String × Json)) : List (String × Json) :=
  match later.lookup key with
  | some last => (key, last) :: later.filter (·.1 != key)
  | none => (key, value) :: later

mutual

/-- The value with distinct member names: a repeated name keeps its first place and takes its last value. -/
def merged : Json → Json
  | .array items => .array (mergedItems items)
  | .object members => .object (mergedMembers members)
  | .null => .null
  | .bool b => .bool b
  | .number n => .number n
  | .string s => .string s

/-- The merged items of a list. -/
def mergedItems : List Json → List Json
  | [] => []
  | v :: rest => merged v :: mergedItems rest

/-- The merged members of an object. -/
def mergedMembers : List (String × Json) → List (String × Json)
  | [] => []
  | (k, v) :: rest => mergeMember k (merged v) (mergedMembers rest)

end

/-- The value of a JSON text. -/
def ofText? (text : String) : Option Json :=
  ((Document.ofText? text).bind (Document.plain? Document.maxDepth)).map merged

end Json

end ThingQuery
