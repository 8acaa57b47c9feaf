import ThingQuery.Plan.Basic
import ThingQuery.Plan.Error

/-!
# Bounds and sort keys

A page of rows is bounded by a limit and an offset, which are whole numbers that fit in 64 bits; a sort key names a
column by the key under which it is returned or by its path.
-/

namespace ThingQuery

/-- The part of the rows that is returned. -/
structure Page where
  limit : Option Nat
  offset : Option Nat
  deriving DecidableEq

namespace Page

/-- The greatest bound. -/
def maxBound : Nat := twoPow 64 - 1

/-- The bound that a floating-point number gives: a whole number from 0 to `2 ^ 64`, where the last one counts as the
greatest bound. -/
def ofFloat (bound : Bound) (x : Binary64) : Except PlanError Nat :=
  match x.magnitude.toNat? with
  | some n =>
    if x.value < 0 then .error (.boundNegative bound (.float x))
    else if n ≤ maxBound + 1 then .ok (min n maxBound)
    else .error (.boundNotInteger bound (.float x))
  | none =>
    if x.value < 0 then .error (.boundNegative bound (.float x)) else .error (.boundNotInteger bound (.float x))

/-- A bound from the value given in a query; null is the same as no value. -/
def parseBound (bound : Bound) : Option Json → Except PlanError (Option Nat)
  | none | some .null => .ok none
  | some (.number (.int i)) =>
    if 0 ≤ i.val then .ok (some i.val.toNat) else .error (.boundNegative bound (.int i))
  | some (.number (.float x)) => (ofFloat bound x).map some
  | some other => .error (.boundNotNumber bound other)

/-- A page from the limit and the offset given in a query. -/
def parse (limit offset : Option Json) : Except PlanError Page := do
  let l ← parseBound .limit limit
  let o ← parseBound .offset offset
  pure ⟨l, o⟩

theorem code_of_ofFloat {bound : Bound} {x : Binary64} {e : PlanError} (h : ofFloat bound x = .error e) :
    e.code = "BQL_INVALID_PAGINATION" := by
  unfold ofFloat at h
  split at h
  · split at h
    · cases h
      rfl
    · split at h <;> cases h
      rfl
  · split at h <;> cases h <;> rfl

theorem code_of_parseBound {bound : Bound} {v : Option Json} {e : PlanError} (h : parseBound bound v = .error e) :
    e.code = "BQL_INVALID_PAGINATION" := by
  unfold parseBound at h
  split at h
  · cases h
  · cases h
  · split at h <;> cases h
    rfl
  · rename_i x
    cases hfloat : ofFloat bound x with
    | ok n =>
      rw [hfloat] at h
      cases h
    | error e' =>
      rw [hfloat] at h
      cases h
      exact code_of_ofFloat hfloat
  · cases h
    rfl

/-- Whatever keeps a page from being read, it is reported as a fault of its bounds. -/
theorem code_of_parse {limit offset : Option Json} {e : PlanError} (h : parse limit offset = .error e) :
    e.code = "BQL_INVALID_PAGINATION" := by
  unfold parse at h
  cases hlimit : parseBound .limit limit with
  | error e' =>
    rw [hlimit] at h
    cases h
    exact code_of_parseBound hlimit
  | ok l =>
    rw [hlimit] at h
    cases hoffset : parseBound .offset offset with
    | error e' =>
      rw [hoffset] at h
      cases h
      exact code_of_parseBound hoffset
    | ok o =>
      rw [hoffset] at h
      cases h

end Page

/-- Whether a sort key names a column. -/
def Column.isNamed (column : Column) (field : String) : Bool :=
  column.outputKey == field || column.path? == some field

/-- Succeeds when every sort key names a column and reports the first that does not. -/
def validateSort (sort : List SortKey) (columns : List Column) : Except PlanError Unit :=
  match sort.find? fun key => !columns.any (·.isNamed key.field) with
  | some key => .error (.sortNotProjected key.field)
  | none => .ok ()

/-- The key of the column that a sort key names: by the key itself if a column is returned under it, and otherwise by
the first column with that path. -/
def sortColumn (field : String) (columns : List Column) : String :=
  if columns.any (·.outputKey == field) then field
  else
    match columns.find? (·.path? == some field) with
    | some column => column.outputKey
    | none => field

theorem sortColumn_map {f : Column → Column} (hkey : ∀ c, (f c).outputKey = c.outputKey)
    (hpath : ∀ c, (f c).path? = c.path?) (field : String) (columns : List Column) :
    sortColumn field (columns.map f) = sortColumn field columns := by
  unfold sortColumn
  simp only [List.any_map, List.find?_map, Function.comp_def, hkey, hpath]
  split
  · rfl
  · cases columns.find? (·.path? == some field) with
    | none => rfl
    | some column => exact hkey column

end ThingQuery
