import Mathlib.Data.List.Nodup
import ThingQuery.Plan.Access
import ThingQuery.Store.Execute

/-!
# Consistent stores

In a consistent store every record has a key of its own in its table, pointers of links and roles lead to records of the
thing at the other end, and a relationship that can be followed in both directions is stored on both sides
(`Store.Consistent`).  A pointer determines its record and a record the pointer to it (`resolve?_inj`).
-/

namespace ThingQuery

/-! ### Pointers -/

theorem eq_pointerText_of_splitColon? {text table id : String} (h : splitColon? text = some (table, id)) :
    text = pointerText table id := by
  unfold splitColon? at h
  split at h
  · cases h
  · rename_i c after hdrop
    cases h
    have hcolon : c = ':' := by
      have := List.head?_dropWhile_not (· != ':') text.toList
      rw [hdrop] at this
      simpa using this
    have hsplit := List.takeWhile_append_dropWhile (p := (· != ':')) (l := text.toList)
    rw [hdrop, hcolon] at hsplit
    rw [← String.toList_inj]
    simpa [pointerText] using hsplit.symm

namespace Store

variable {store : Store}

theorem table_of_mem_scan {table : String} {row : Row} (h : row ∈ store.scan table) : row.table = table := by
  obtain ⟨record, _, rfl⟩ := List.mem_map.1 h
  rfl

theorem get?_eq_some {table id : String} {row : Row} (h : store.get? table id = some row) :
    row ∈ store.scan table ∧ row.table = table ∧ row.id? = some id := by
  have hmem := List.mem_of_find?_eq_some h
  have hid := List.find?_some h
  exact ⟨hmem, table_of_mem_scan hmem, eq_of_beq hid⟩

theorem splitPointer?_eq_some {text table id : String} (h : store.splitPointer? text = some (table, id)) :
    text = pointerText table id := by
  unfold splitPointer? at h
  split at h
  · rename_i hsplit
    split at h
    · cases h
      exact eq_pointerText_of_splitColon? hsplit
    · cases h
  · cases h

/-- A pointer that leads to a record is made of the table and the key of the record. -/
theorem resolve?_eq_some {text : String} {row : Row} (h : store.resolve? text = some row) :
    row ∈ store.scan row.table ∧
      ∃ id, row.id? = some id ∧ store.splitPointer? text = some (row.table, id) := by
  unfold resolve? at h
  split at h
  · rename_i table id hsplit
    obtain ⟨hmem, rfl, hid⟩ := get?_eq_some h
    exact ⟨hmem, id, hid, hsplit⟩
  · cases h

/-- There is only one pointer to a record. -/
theorem resolve?_inj {text text' : String} {row : Row} (h : store.resolve? text = some row)
    (h' : store.resolve? text' = some row) : text = text' := by
  obtain ⟨_, id, hid, hsplit⟩ := resolve?_eq_some h
  obtain ⟨_, id', hid', hsplit'⟩ := resolve?_eq_some h'
  cases hid.symm.trans hid'
  rw [splitPointer?_eq_some hsplit, splitPointer?_eq_some hsplit']

/-! ### Records of things -/

/-- The records of a thing. -/
def thingRows (store : Store) (thing : Thing) : List Row := store.sourceRows (.scan thing.variants)

/-- The record stores a pointer to the other one under a path. -/
def Points (store : Store) (row : Row) (path : String) (other : Row) : Prop :=
  ∃ text ∈ textsOf (row.record.get? path), store.resolve? text = some other

theorem mem_thingRows_iff {thing : Thing} {row : Row} :
    row ∈ store.thingRows thing ↔ row.table ∈ thing.variants ∧ row ∈ store.scan row.table := by
  unfold thingRows sourceRows
  rw [List.mem_flatMap]
  constructor
  · rintro ⟨table, htable, hrow⟩
    cases table_of_mem_scan hrow
    exact ⟨htable, hrow⟩
  · rintro ⟨htable, hrow⟩
    exact ⟨row.table, htable, hrow⟩

theorem mem_related_iff {row other : Row} {path : String} :
    other ∈ store.related row.record path none ↔ store.Points row path other :=
  List.mem_filterMap

/-- The store agrees with itself and with the schema. -/
structure Consistent (schema : Schema) (store : Store) : Prop where
  keyed : ∀ table ∈ store.tables.keys, ∀ row ∈ store.scan table, row.id?.isSome = true
  /-- No two records of a table have the same key. -/
  distinct : ∀ table ∈ store.tables.keys, ((store.scan table).map Row.id?).Nodup
  /-- The pointers of a role or of a link to a relation lead to records of the thing at the other end. -/
  resolved : ∀ {name path : String} {thing target : Thing} {field : Field} {opposite : Opposite},
    schema.thing? name = some thing → thing.field? path = some field →
    (field.kind.isRole || field.kind.isRelationLink) = true → field.kind.opposite? = some opposite →
    schema.thing? opposite.thing = some target →
    ∀ row ∈ store.thingRows thing, ∀ text ∈ textsOf (row.record.get? path), (store.splitPointer? text).isSome = true →
      ∃ other ∈ store.thingRows target, store.resolve? text = some other
  /-- A relationship that can be followed back is stored on both sides. -/
  mirrored : ∀ {name path : String} {thing target : Thing} {field : Field} {opposite : Opposite},
    schema.thing? name = some thing → schema.traversable? thing path = some (field, opposite) →
    schema.thing? opposite.thing = some target →
    ∀ row ∈ store.thingRows thing, ∀ other ∈ store.thingRows target,
      store.Points row path other ↔ store.Points other opposite.path row

namespace Consistent

variable {schema : Schema}

theorem nodup_scan (h : store.Consistent schema) (table : String) : ((store.scan table).map Row.id?).Nodup := by
  by_cases htable : table ∈ store.tables.keys
  · exact h.distinct table htable
  · have hnone : store.tables.get? table = none := by
      refine Option.eq_none_iff_forall_ne_some.2 fun records hrecords => htable ?_
      exact List.mem_map.2 ⟨_, NameMap.mem_of_get?_eq_some hrecords, rfl⟩
    simp [scan, hnone]

/-- A record is found under its key. -/
theorem get?_eq_some_iff (h : store.Consistent schema) {table id : String} {row : Row} :
    store.get? table id = some row ↔ row ∈ store.scan table ∧ row.id? = some id := by
  constructor
  · intro hget
    obtain ⟨hmem, _, hid⟩ := get?_eq_some hget
    exact ⟨hmem, hid⟩
  · rintro ⟨hmem, hid⟩
    cases hget : store.get? table id with
    | none => exact absurd (beq_iff_eq.2 hid) (List.find?_eq_none.1 hget row hmem)
    | some found =>
      obtain ⟨hfound, _, hid'⟩ := get?_eq_some hget
      exact congrArg some (List.inj_on_of_nodup_map (h.nodup_scan table) hfound hmem (hid'.trans hid.symm))

theorem nodup_thingRows (h : store.Consistent schema) {thing : Thing} (htables : thing.variants.Nodup) :
    (store.thingRows thing).Nodup := by
  refine List.nodup_flatMap.2 ⟨fun table _ => .of_map _ (h.nodup_scan table), ?_⟩
  refine htables.imp fun hne row hrow hrow' => hne ?_
  exact (table_of_mem_scan hrow).symm.trans (table_of_mem_scan hrow')

end Consistent

/-! ### Sources -/

theorem nodup_eraseDups {α : Type} [BEq α] [LawfulBEq α] (xs : List α) : xs.eraseDups.Nodup := by
  induction hn : xs.length using Nat.strongRecOn generalizing xs with
  | ind n ih =>
    cases xs with
    | nil => simp
    | cons x rest =>
      rw [List.eraseDups_cons, List.nodup_cons, List.mem_eraseDups]
      refine ⟨by simp, ih _ ?_ _ rfl⟩
      have := List.length_filter_le (fun y => !y == x) rest
      simp only [List.length_cons] at hn
      omega

variable {schema : Schema}

theorem Consistent.mem_pointer_iff (h : store.Consistent schema) {tables ids : List String} {row : Row} :
    row ∈ store.sourceRows (.pointer tables ids) ↔
      row.table ∈ tables ∧ row ∈ store.scan row.table ∧ ∃ id ∈ ids, row.id? = some id := by
  unfold sourceRows
  simp only [List.mem_flatMap, List.mem_filterMap, h.get?_eq_some_iff]
  constructor
  · rintro ⟨table, htable, id, hid, hrow, hkey⟩
    cases table_of_mem_scan hrow
    exact ⟨htable, hrow, id, hid, hkey⟩
  · rintro ⟨htable, hrow, id, hid, hkey⟩
    exact ⟨row.table, htable, id, hid, hrow, hkey⟩

theorem nodup_pointer {tables ids : List String} (htables : tables.Nodup) (hids : ids.Nodup) :
    (store.sourceRows (.pointer tables ids)).Nodup := by
  refine List.nodup_flatMap.2 ⟨fun table _ => hids.filterMap fun id id' row hid hid' => ?_, ?_⟩
  · exact Option.some.inj ((get?_eq_some hid).2.2.symm.trans (get?_eq_some hid').2.2)
  · refine htables.imp fun hne row hrow hrow' => hne ?_
    obtain ⟨_, _, hget⟩ := List.mem_filterMap.1 hrow
    obtain ⟨_, _, hget'⟩ := List.mem_filterMap.1 hrow'
    exact (get?_eq_some hget).2.1.symm.trans (get?_eq_some hget').2.1

theorem mem_subquery_iff {start : Source} {path : String} {filter : Option Filter} {cardinality : Cardinality}
    {row : Row} : row ∈ store.sourceRows (.subquery start path filter cardinality) ↔
      ∃ other ∈ store.retain filter (store.sourceRows start), store.Points other path row := by
  rw [sourceRows]
  simp only [List.mem_filterMap, List.mem_eraseDups, List.mem_flatMap, pointers, Points]
  constructor
  · rintro ⟨text, ⟨other, hother, htext⟩, hresolve⟩
    exact ⟨other, hother, text, htext, hresolve⟩
  · rintro ⟨other, hother, text, htext, hresolve⟩
    exact ⟨text, ⟨other, hother, htext⟩, hresolve⟩

theorem nodup_subquery (start : Source) (path : String) (filter : Option Filter) (cardinality : Cardinality) :
    (store.sourceRows (.subquery start path filter cardinality)).Nodup := by
  rw [sourceRows]
  exact (nodup_eraseDups _).filterMap fun _ _ _ h h' => resolve?_inj h h'

end Store

end ThingQuery
