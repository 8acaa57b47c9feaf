import ThingQuery.Schema.Validate

/-!
# What soundness of a schema means

`Schema.validate` accepts a schema exactly when all names in it lead somewhere (`validate_eq_ok_iff`), so that every
link and role of an accepted schema has a thing at its other end (`exists_thing?_of_validate`).
-/

namespace ThingQuery

namespace Thing

/-- All names in a thing lead somewhere: its subtypes are things, its indexes name fields of it, and its links and roles
have opposite fields. -/
structure Sound (schema : Schema) (thing : Thing) : Prop where
  subTypes : ∀ name ∈ thing.subTypes, (schema.thing? name).isSome = true
  /-- Every index is over fields of the thing. -/
  indexes : ∀ index ∈ thing.indexes, ∀ name ∈ index.fields, (thing.field? name).isSome = true
  /-- Every link or role has an opposite field. -/
  opposites : ∀ field ∈ thing.fields, ∀ opposite, field.kind.opposite? = some opposite →
    (schema.oppositeField? opposite).isSome = true

theorem mem_of_field? {thing : Thing} {name : String} {field : Field} (h : thing.field? name = some field) :
    field ∈ thing.fields ∧ field.name = name := by
  refine ⟨List.mem_of_find?_eq_some h, ?_⟩
  have := List.find?_some h
  simpa using this

end Thing

namespace Schema

theorem mem_values_of_thing? {schema : Schema} {name : String} {thing : Thing} (h : schema.thing? name = some thing) :
    thing ∈ schema.things.values :=
  List.mem_map_of_mem (f := (·.2)) (NameMap.mem_of_get?_eq_some h)

theorem name_of_thing? {schema : Schema} {name : String} {thing : Thing} (h : schema.thing? name = some thing) :
    thing.name = name :=
  schema.named _ (NameMap.mem_of_get?_eq_some h)

theorem thing?_name {schema : Schema} {name : String} {thing : Thing} (h : schema.thing? name = some thing) :
    schema.thing? thing.name = some thing := by
  rw [name_of_thing? h, h]

theorem faultOf?_eq_none_iff {schema : Schema} {thing : Thing} : schema.faultOf? thing = none ↔ thing.Sound schema := by
  have hor : ∀ {a b c : Option SchemaError}, (a <|> b <|> c) = none ↔ a = none ∧ b = none ∧ c = none := by
    intro a b c
    cases a <;> cases b <;> cases c <;> simp
  unfold faultOf?
  rw [hor, List.findSome?_eq_none_iff, List.findSome?_eq_none_iff, List.findSome?_eq_none_iff]
  constructor
  · rintro ⟨hsub, hindex, hfield⟩
    refine ⟨fun name hname => ?_, fun index hi name hname => ?_, fun field hf opposite hopp => ?_⟩
    · have := hsub name hname
      cases h : schema.thing? name <;> simp_all
    · have := hindex name (List.mem_flatMap.2 ⟨index, hi, hname⟩)
      cases h : thing.field? name <;> simp_all
    · have := hfield field hf
      rw [hopp] at this
      cases h : schema.oppositeField? opposite <;> simp_all
  · rintro ⟨hsub, hindex, hfield⟩
    refine ⟨fun name hname => ?_, fun name hname => ?_, fun field hf => ?_⟩
    · have := hsub name hname
      cases h : schema.thing? name <;> simp_all
    · obtain ⟨index, hi, hname⟩ := List.mem_flatMap.1 hname
      have := hindex index hi name hname
      cases h : thing.field? name <;> simp_all
    · cases hopp : field.kind.opposite? with
      | none => rfl
      | some opposite =>
        have := hfield field hf opposite hopp
        cases h : schema.oppositeField? opposite <;> simp_all

/-- A schema is accepted exactly when all names in its things lead somewhere. -/
theorem validate_eq_ok_iff {schema : Schema} :
    schema.validate = .ok () ↔ ∀ thing ∈ schema.things.values, thing.Sound schema := by
  have hall : schema.things.values.findSome? schema.faultOf? = none ↔
      ∀ thing ∈ schema.things.values, thing.Sound schema := by
    rw [List.findSome?_eq_none_iff]
    exact forall_congr' fun thing => forall_congr' fun _ => faultOf?_eq_none_iff
  rw [← hall]
  unfold validate
  split
  · rename_i h
    simp [h]
  · rename_i h
    simp [h]

/-- In an accepted schema there is a thing at the other end of every link and role. -/
theorem exists_thing?_of_validate {schema : Schema} (h : schema.validate = .ok ()) {name path : String} {thing : Thing}
    {field : Field} {opposite : Opposite} (hthing : schema.thing? name = some thing)
    (hfield : thing.field? path = some field) (hopp : field.kind.opposite? = some opposite) :
    ∃ target, schema.thing? opposite.thing = some target := by
  have hsound := validate_eq_ok_iff.1 h thing (mem_values_of_thing? hthing)
  obtain ⟨back, hback⟩ := Option.isSome_iff_exists.1
    (hsound.opposites field (Thing.mem_of_field? hfield).1 opposite hopp)
  obtain ⟨target, htarget, _⟩ := Option.bind_eq_some_iff.1 hback
  exact ⟨target, htarget⟩

end Schema

/-- The memberships of users. -/
def memberThing : Thing where
  name := "Member"
  kind := .relation
  idFields := ["id"]
  indexes := [.single "level"]
  fields := [.key "id", .text "level" .one, ⟨"user", .role .one ⟨"User", "members", .many⟩⟩]

def userThing : Thing where
  name := "User"
  kind := .entity
  idFields := ["id"]
  indexes := [.single "name"]
  fields :=
    [.key "id", .text "name" .one, ⟨"members", .link .many "Member" "user" .relation ⟨"Member", "user", .one⟩⟩]

/-- Users and their memberships, which can be followed in both directions. -/
def memberSchema : Schema := .ofThings [memberThing, userThing]

example : memberSchema.validate = .ok () := rfl

end ThingQuery
