import ThingQuery.Schema.Basic

/-!
# Stores

A store holds records in tables, in the order of their insertion.  A record is referred to by a pointer, the text of its
table and its key with a colon between them; a text is a pointer only if a table of the store stands before its first
colon.
-/

namespace ThingQuery

/-- A record with its table. -/
structure Row where
  table : String
  record : Json

/-- The key of the record, if it is a text. -/
def Row.id? (row : Row) : Option String := (row.record.get? idColumn).bind Json.string?

/-- The pointer to the record with a key in a table. -/
def pointerText (table id : String) : String := table ++ ":" ++ id

/-- The texts before and after the first colon. -/
def splitColon? (text : String) : Option (String × String) :=
  match text.toList.dropWhile (· != ':') with
  | [] => none
  | _ :: after => some (String.ofList (text.toList.takeWhile (· != ':')), String.ofList after)

/-- Tables of records. -/
structure Store where
  tables : NameMap (List Json)

namespace Store

/-- The store without tables. -/
def empty : Store := ⟨NameMap.empty⟩

/-- Registers a table. -/
def addTable (store : Store) (table : String) : Store :=
  match store.tables.get? table with
  | some _ => store
  | none => ⟨store.tables.insert table []⟩

/-- Adds a record at the end of a table. -/
def insert (store : Store) (table : String) (record : Json) : Store :=
  ⟨store.tables.insert table ((store.tables.get? table).getD [] ++ [record])⟩

/-- The records of a table; an unknown table has none. -/
def scan (store : Store) (table : String) : List Row :=
  ((store.tables.get? table).getD []).map (⟨table, ·⟩)

/-- The first record with a key in a table. -/
def get? (store : Store) (table id : String) : Option Row :=
  (store.scan table).find? fun row => row.id? == some id

/-- The table and the key of a pointer. -/
def splitPointer? (store : Store) (text : String) : Option (String × String) :=
  match splitColon? text with
  | some (table, id) => if (store.tables.get? table).isSome then some (table, id) else none
  | none => none

/-- The record that a pointer refers to. -/
def resolve? (store : Store) (text : String) : Option Row :=
  match store.splitPointer? text with
  | some (table, id) => store.get? table id
  | none => none

/-- The number of records. -/
def size (store : Store) : Nat := store.tables.values.foldl (fun n records => n + records.length) 0

/-- The store of tables with their records. -/
def ofTables (tables : List (String × List Json)) : Store :=
  tables.foldl (fun store (table, records) => records.foldl (·.insert table ·) (store.addTable table)) empty

/-- The texts that a stored value holds. -/
def textsOf : Option Json → List String
  | some (.string s) => [s]
  | some (.array items) => items.filterMap Json.string?
  | _ => []

/-- The pointers that a record stores under a path, where a tunnel leads on to those that the records behind them store
under a role. -/
def pointers (store : Store) (record : Json) (path : String) (tunnel : Option String) : List String :=
  let direct := textsOf (record.get? path)
  match tunnel with
  | none => direct
  | some role => (direct.filterMap store.resolve?).flatMap fun row => textsOf (row.record.get? role)

/-- The records that a path of a record leads to. -/
def related (store : Store) (record : Json) (path : String) (tunnel : Option String) : List Row :=
  (store.pointers record path tunnel).filterMap store.resolve?

/-- Whether a text points to the record with a key, in one of the tables if some are given. -/
def pointsTo (store : Store) (text id : String) (tables : Option (List String)) : Bool :=
  match store.splitPointer? text with
  | some (table, key) => key == id && tables.all (·.contains table)
  | none => false

end Store

end ThingQuery
