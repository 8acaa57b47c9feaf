import ThingQuery.Number.Decimal

/-!
# JSON values

A value keeps the members of an object in their written order.  Two values are the same (`==`) when they agree up to
that order; an integer and a floating-point number are never the same value.
-/

namespace ThingQuery

/-- An integer that a JSON number can hold exactly: it fits in 64 bits, with or without a sign. -/
structure JsonInt where
  val : Int
  lower : -9223372036854775808 ≤ val
  /-- The greatest integer is `2 ^ 64 - 1`. -/
  upper : val < 18446744073709551616
  deriving DecidableEq

/-- The integer as a JSON integer, if it fits. -/
def JsonInt.ofInt? (i : Int) : Option JsonInt :=
  if h : -9223372036854775808 ≤ i ∧ i < 18446744073709551616 then some ⟨i, h.1, h.2⟩ else none

/-- A JSON number: an integer, or a floating-point number when it is written with a point or an exponent or does not
fit. -/
inductive JsonNumber where
  | int (i : JsonInt)
  | float (x : Binary64)
  deriving DecidableEq

namespace JsonNumber

/-- Equality by kind and value. -/
instance : BEq JsonNumber where
  beq
    | .int i, .int j => i.val == j.val
    | .float x, .float y => x == y
    | _, _ => false

/-- The decimal text of a number. -/
def toText : JsonNumber → String
  | .int i => toString i.val
  | .float x => x.toText

/-- The value as a floating-point number, in units of `2 ^ -1074`. -/
def binaryValue : JsonNumber → Int
  | .int i => Binary64.valueOfInt i.val
  | .float x => x.value

end JsonNumber

/-- A JSON value. -/
inductive Json where
  | null
  | bool (b : Bool)
  | number (n : JsonNumber)
  | string (s : String)
  | array (items : List Json)
  /-- Named members in their written order. -/
  | object (members : List (String × Json))

namespace Json

instance : Inhabited Json := ⟨.null⟩

/-- The value of a natural number that fits in 64 bits. -/
def ofNat? (n : Nat) : Option Json := (JsonInt.ofInt? n).map fun i => .number (.int i)

mutual

/-- Whether two values agree up to the order of object members. -/
def same : Json → Json → Bool
  | .null, .null => true
  | .bool a, .bool b => a == b
  | .number a, .number b => a == b
  | .string a, .string b => a == b
  | .array as, .array bs => sameItems as bs
  | .object as, .object bs => as.length == bs.length && sameMembers as bs
  | _, _ => false

/-- Whether two lists agree item by item. -/
def sameItems : List Json → List Json → Bool
  | [], [] => true
  | a :: as, b :: bs => same a b && sameItems as bs
  | _, _ => false

/-- Whether every member of the first list has a member of the same name and value in the second. -/
def sameMembers : List (String × Json) → List (String × Json) → Bool
  | [], _ => true
  | (k, a) :: rest, bs =>
    (match bs.lookup k with
    | some b => same a b
    | none => false) && sameMembers rest bs

end

instance : BEq Json := ⟨same⟩

/-- The text, if the value is one. -/
def string? : Json → Option String
  | .string s => some s
  | _ => none

/-- The truth value, if the value is one. -/
def bool? : Json → Option Bool
  | .bool b => some b
  | _ => none

/-- The items, if the value is a list. -/
def array? : Json → Option (List Json)
  | .array items => some items
  | _ => none

/-- The members, if the value is an object. -/
def object? : Json → Option (List (String × Json))
  | .object members => some members
  | _ => none

/-- Whether the value is null. -/
def isNull : Json → Bool
  | .null => true
  | _ => false

/-- The member of that name, if the value is an object that has one. -/
def get? (key : String) : Json → Option Json
  | .object members => members.lookup key
  | _ => none

/-- Puts a value under a name: an existing member keeps its place, a new one goes to the end. -/
def insertMember (key : String) (value : Json) : List (String × Json) → List (String × Json)
  | [] => [(key, value)]
  | (k, v) :: rest => if k = key then (k, value) :: rest else (k, v) :: insertMember key value rest

end Json

theorem lookup_eq_none_of_notMem {members : List (String × Json)} {key : String} (h : key ∉ members.map (·.1)) :
    members.lookup key = none := by
  refine List.lookup_eq_none_iff.2 fun member hmember => ?_
  have hne : key ≠ member.1 := fun heq => h (heq ▸ List.mem_map_of_mem hmember)
  simpa using hne

end ThingQuery
