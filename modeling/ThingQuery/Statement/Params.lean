import ThingQuery.Json.Basic
import ThingQuery.NameMap

/-!
# Parameters of statements

The values of a batch of statements are bound under the keys `p0`, `p1`, … and referred to by placeholders.  A caller
may bind further keys; a key that is bound is never bound again.
-/

namespace ThingQuery

/-- Bound values and the number that the next key is tried with. -/
structure Params where
  values : NameMap Json
  next : Nat

namespace Params

/-- No parameters. -/
def empty : Params := ⟨NameMap.empty, 0⟩

instance : Inhabited Params := ⟨empty⟩

/-- The key of a number. -/
def key (n : Nat) : String := "p" ++ toString n

/-- The first number from `n` on whose key is free, looking at no more than `room` numbers. -/
def freeFrom (values : NameMap Json) : Nat → Nat → Nat
  | 0, n => n
  | room + 1, n => if (values.get? (key n)).isNone then n else freeFrom values room (n + 1)

/-- The first number whose key is free; looking at one number more than there are keys finds it. -/
def freeNumber (params : Params) : Nat := freeFrom params.values (params.values.size + 1) params.next

/-- Binds a value under the next free key and returns the placeholder of the key. -/
def bind (params : Params) (value : Json) : String × Params :=
  let n := params.freeNumber
  ("$" ++ key n, ⟨params.values.insert (key n) value, n + 1⟩)

/-- Binds a value under a given key, unless the key is bound; tells whether it was free. -/
def insert (params : Params) (name : String) (value : Json) : Bool × Params :=
  if (params.values.get? name).isSome then (false, params)
  else (true, { params with values := params.values.insert name value })

/-- The value under a key. -/
def get? (params : Params) (name : String) : Option Json := params.values.get? name

/-- The number of bound keys. -/
def size (params : Params) : Nat := params.values.size

/-- The parameters as an object with its members in the order of the keys. -/
def toJson (params : Params) : Json := .object params.values.entries

end Params

end ThingQuery
