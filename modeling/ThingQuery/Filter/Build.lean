import ThingQuery.Filter.Basic
import ThingQuery.Plan.Error

/-!
# Filters from queries

The filter of a query is a JSON value that is checked against the schema.  An object is the conjunction of its members
and a list the disjunction of its items; a member is a connective or a condition on a field.  A condition on a link or a
role may mix operators on the pointers with conditions on the thing at the other end.
-/

namespace ThingQuery

namespace ScalarOp

/-- The scalar operator of a key. -/
def ofKey? : String → Option ScalarOp
  | "$eq" => some .eq
  | "$ne" => some .ne
  | "$gt" => some .gt
  | "$lt" => some .lt
  | "$gte" => some .gte
  | "$lte" => some .lte
  | "$contains" => some .contains
  | "$containsNot" => some .containsNot
  | _ => none

end ScalarOp

namespace ListOp

/-- The list operator of a key. -/
def ofKey? : String → Option ListOp
  | "$in" => some .isIn
  | "$nin" => some .notIn
  | "$containsAll" => some .containsAll
  | "$containsAny" => some .containsAny
  | "$containsNone" => some .containsNone
  | _ => none

end ListOp

/-- Whether a key has the form of an operator or a connective. -/
def isDollarKey (key : String) : Bool := key.toList.head? == some '$'

/-- Keys given as one text or as a list of texts. -/
def idsOf (field : String) (v : Json) : Except PlanError (List String) :=
  match v with
  | .string id => .ok [id]
  | .array items =>
    match items.mapM Json.string? with
    | some ids => .ok ids
    | none => .error (.idsShape field v)
  | _ => .error (.idsShape field v)

namespace Filter

/-- The test for existence that a truth value asks for. -/
def existence (field : String) (tunnel : Option String) : Json → Except PlanError Filter
  | .bool true => .ok (.null .isNotNone field tunnel)
  | .bool false => .ok (.null .isNone field tunnel)
  | _ => .error (.existsShape field)

/-- The filter of one operator on a data column. -/
def dataOperator (left op : String) (operand : Json) : Except PlanError Filter :=
  if op = "$exists" then existence left none operand
  else
    match ScalarOp.ofKey? op with
    | some scalarOp =>
      if operand.isNull then
        match scalarOp with
        | .eq => .ok (.null .isNone left none)
        | .ne => .ok (.null .isNotNone left none)
        | _ => .error (.nullOperand left op)
      else
        .ok (.scalar scalarOp left operand)
    | none =>
      match ListOp.ofKey? op with
      | some listOp =>
        match operand with
        | .array items => .ok (.list listOp left items)
        | _ => .error (.listOperand left op)
      | none => if isDollarKey op then .error (.unknownOperator left op) else .error (.notOperator left op)

/-- The filter on a data column: null tests for absence, a list and a plain value are compared, and an object holds
operators. -/
def ofData (left : String) (cardinality : Cardinality) : Json → Except PlanError Filter
  | .null => .ok (.null .isNone left none)
  | .array items => .ok (.list (.positive cardinality) left items)
  | .object [] => .error (.noOperators left)
  | .object ops => (ops.mapM fun (op, operand) => dataOperator left op operand).map all
  | v =>
    .ok (.scalar (match cardinality with
      | .one => .eq
      | .many => .contains) left v)

/-- The filter on a reference column. -/
def ofReference (left : String) (cardinality : Cardinality) : Json → Except PlanError Filter
  | .null => .ok (.null .isNone left none)
  | v => (idsOf left v).map fun ids => .ref (.positive cardinality) left ids none none

/-- A link or a role with what its filters need to know. -/
structure Relationship where
  name : String
  cardinality : Cardinality
  target : String
  tables : List String
  /-- The role to which the field leads on. -/
  tunnel : Option String

namespace Relationship

/-- The comparison of the pointers with keys. -/
def reference (rel : Relationship) (op : ListOp) (ids : List String) : Filter :=
  .ref op rel.name ids (some rel.tables) rel.tunnel

/-- The filter of one operator on the pointers, or `none` when the key is not an operator and speaks about the thing at
the other end. -/
def operator (rel : Relationship) (op : String) (operand : Json) : Except PlanError (Option Filter) :=
  if op = "$exists" then (existence rel.name rel.tunnel operand).map some
  else
    match ScalarOp.ofKey? op with
    | some .eq =>
      if operand.isNull then .ok (some (.null .isNone rel.name rel.tunnel))
      else (idsOf rel.name operand).map fun ids => some (rel.reference (.positive rel.cardinality) ids)
    | some .ne =>
      if operand.isNull then .ok (some (.null .isNotNone rel.name rel.tunnel))
      else (idsOf rel.name operand).map fun ids => some (rel.reference (.negative rel.cardinality) ids)
    | some .contains => (idsOf rel.name operand).map fun ids => some (rel.reference (.positive rel.cardinality) ids)
    | some .containsNot => (idsOf rel.name operand).map fun ids => some (rel.reference (.negative rel.cardinality) ids)
    | some .gt | some .lt | some .gte | some .lte => .error (.relationOrder rel.name op)
    | none =>
      match ListOp.ofKey? op with
      | some listOp => (idsOf rel.name operand).map fun ids => some (rel.reference listOp ids)
      | none => .ok none

/-- Whether a key is an operator on the pointers. -/
def isOperator (key : String) : Bool :=
  key == "$exists" || (ScalarOp.ofKey? key).isSome || (ListOp.ofKey? key).isSome

/-- The filters of all operators among the members. -/
def operators (rel : Relationship) (members : List (String × Json)) : Except PlanError (List Filter) :=
  (members.mapM fun (op, operand) => rel.operator op operand).map (List.filterMap id)

end Relationship

/-- What a member of a filter object speaks about. -/
inductive Subject where
  /-- The disjunction of what it holds. -/
  | disjunction
  /-- The conjunction of what it holds. -/
  | conjunction
  | negation
  | data (left : String) (cardinality : Cardinality)
  | reference (left : String) (cardinality : Cardinality)
  | relationship (rel : Relationship)

/-- What the member of that name speaks about in a filter on a thing. -/
def subject (schema : Schema) (thing : Thing) (key : String) : Except PlanError Subject :=
  if key = "$or" then .ok .disjunction
  else if key = "$and" then .ok .conjunction
  else if key = "$not" then .ok .negation
  else if isDollarKey key then .error (.unknownConnective key)
  else
    match thing.field? key with
    | none => .error (.unknownField thing.name key)
    | some field =>
      match field.kind with
      | .constant _ | .computed _ => .error (.virtualFilter key)
      | .data _ cardinality _ => .ok (.data (if thing.isIdField key then idColumn else key) cardinality)
      | .ref .flex _ => .error (.flexFilter key)
      | .ref .ref cardinality => .ok (.reference key cardinality)
      | .link cardinality _ _ _ opposite | .role cardinality opposite =>
        let tables :=
          match schema.thing? opposite.thing with
          | some target => target.variants
          | none => [opposite.thing]
        .ok (.relationship ⟨field.name, cardinality, opposite.thing, tables, field.tunnel?⟩)

/-- The thing of a name. -/
def targetThing (schema : Schema) (name : String) : Except PlanError Thing :=
  match schema.thing? name with
  | some thing => .ok thing
  | none => .error (.unknownThing name)

mutual

/-- The filter that a value describes for records of a thing. -/
def ofJson (schema : Schema) (thing : Thing) : Json → Except PlanError Filter
  | .object members => (ofMembers schema thing members).map all
  | .array items => (ofItems schema thing items).map any
  | other => .error (.filterShape other)

/-- The filters of the items of a list. -/
def ofItems (schema : Schema) (thing : Thing) : List Json → Except PlanError (List Filter)
  | [] => .ok []
  | v :: rest => do
    let f ← ofJson schema thing v
    let fs ← ofItems schema thing rest
    pure (f :: fs)

/-- The filters of the members of an object. -/
def ofMembers (schema : Schema) (thing : Thing) : List (String × Json) → Except PlanError (List Filter)
  | [] => .ok []
  | (key, v) :: rest => do
    let f ← ofMember schema thing key v
    let fs ← ofMembers schema thing rest
    pure (f :: fs)

/-- The filters of those members that are not operators on pointers. -/
def ofLeftovers (schema : Schema) (thing : Thing) : List (String × Json) → Except PlanError (List Filter)
  | [] => .ok []
  | (key, v) :: rest =>
    if Relationship.isOperator key then ofLeftovers schema thing rest
    else do
      let f ← ofMember schema thing key v
      let fs ← ofLeftovers schema thing rest
      pure (f :: fs)

/-- The filter of one member of an object. -/
def ofMember (schema : Schema) (thing : Thing) (key : String) (v : Json) : Except PlanError Filter := do
  match ← subject schema thing key with
  | .disjunction =>
    match v with
    | .object members => (ofMembers schema thing members).map any
    | .array items => (ofItems schema thing items).map any
    | _ => .error (.connectiveShape key)
  | .conjunction =>
    match v with
    | .object members => (ofMembers schema thing members).map all
    | .array items => (ofItems schema thing items).map all
    | _ => .error (.connectiveShape key)
  | .negation =>
    match v with
    | .object members => (ofMembers schema thing members).map fun fs => .not (all fs)
    | .array items => (ofItems schema thing items).map fun fs => .not (any fs)
    | other => .error (.filterShape other)
  | .data left cardinality => ofData left cardinality v
  | .reference left cardinality => ofReference left cardinality v
  | .relationship rel =>
    match v with
    | .null => .ok (.null .isNone rel.name rel.tunnel)
    | .string id => .ok (rel.reference (.positive rel.cardinality) [id])
    | .array items => (idsOf rel.name (.array items)).map (rel.reference (.positive rel.cardinality))
    | .object members =>
      if members.isEmpty then .error (.relationShape rel.name (.object members))
      else do
        let parts ← rel.operators members
        if members.all (Relationship.isOperator ·.1) then pure (all parts)
        else do
          let target ← targetThing schema rel.target
          let inner ← ofLeftovers schema target members
          pure (all (parts ++ [.nested rel.name rel.cardinality rel.tunnel (all inner)]))
    | other => .error (.relationShape rel.name other)

end

end Filter

end ThingQuery
