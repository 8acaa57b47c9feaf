import ThingQuery.Proofs.Accepted
import ThingQuery.Proofs.Columnwise
import ThingQuery.Proofs.SoundSchema

/-!
# Well-typed filters and plans

A filter or a column is read in the scope of a thing, whose fields it names, and a relationship leads on to the scope of
the thing at its other end.  Whether a filter is well typed depends only on its columns
(`Filter.columnwise_wellTyped`), and the filter of an accepted query is (`Filter.wellTyped_of_ofJson`).
-/

namespace ThingQuery

namespace FieldKind

def isData : FieldKind → Bool
  | .data .. => true
  | _ => false

/-- Whether the field holds nothing but pointers: it is a reference, a link or a role. -/
def isPointer : FieldKind → Bool
  | .ref .ref _ | .link .. | .role .. => true
  | _ => false

theorem isPointer_of_opposite? {kind : FieldKind} {opposite : Opposite} (h : kind.opposite? = some opposite) :
    kind.isPointer = true := by
  cases kind <;> simp_all [opposite?, isPointer]

end FieldKind

/-- The column holds data of the thing: it is the key column or that of a data field. -/
def Thing.HasData (thing : Thing) (column : String) : Prop :=
  column = idColumn ∨ ∃ field, thing.field? column = some field ∧ field.kind.isData = true

/-- The field is a link or a role, and the thing is at its other end. -/
def Field.LeadsTo (schema : Schema) (field : Field) (target : Thing) : Prop :=
  ∃ opposite, field.kind.opposite? = some opposite ∧ schema.thing? opposite.thing = some target

/-- The filter fits the records of a thing. -/
inductive Filter.WellTyped (schema : Schema) : Thing → Filter → Prop where
  | scalar {thing : Thing} {op : ScalarOp} {left : String} {right : Json} (h : thing.HasData left) :
    WellTyped schema thing (.scalar op left right)
  | list {thing : Thing} {op : ListOp} {left : String} {right : List Json} (h : thing.HasData left) :
    WellTyped schema thing (.list op left right)
  /-- The keys of a reference are looked for in any table. -/
  | reference {thing : Thing} {op : ListOp} {left : String} {ids : List String} {field : Field}
    {cardinality : Cardinality} (hfield : thing.field? left = some field)
    (hkind : field.kind = .ref .ref cardinality) : WellTyped schema thing (.ref op left ids none none)
  /-- The keys of a link or a role are looked for in the tables of the thing at its other end. -/
  | relationship {thing target : Thing} {op : ListOp} {left : String} {ids : List String} {field : Field}
    (hfield : thing.field? left = some field) (hleads : field.LeadsTo schema target) :
    WellTyped schema thing (.ref op left ids (some target.variants) field.tunnel?)
  /-- The key may be tested for absence. -/
  | nullKey {thing : Thing} {op : NullOp} : WellTyped schema thing (.null op idColumn none)
  /-- A field that holds data or nothing but pointers may be tested for absence. -/
  | null {thing : Thing} {op : NullOp} {left : String} {field : Field} (hfield : thing.field? left = some field)
    (hkind : field.kind.isData = true ∨ field.kind.isPointer = true) :
    WellTyped schema thing (.null op left field.tunnel?)
  | and {thing : Thing} {children : List Filter} (h : ∀ f ∈ children, WellTyped schema thing f) :
    WellTyped schema thing (.and children)
  | or {thing : Thing} {children : List Filter} (h : ∀ f ∈ children, WellTyped schema thing f) :
    WellTyped schema thing (.or children)
  | not {thing : Thing} {child : Filter} (h : WellTyped schema thing child) : WellTyped schema thing (.not child)
  /-- A condition on related records fits the thing at the other end. -/
  | nested {thing target : Thing} {path : String} {cardinality : Cardinality} {inner : Filter} {field : Field}
    (hfield : thing.field? path = some field) (hleads : field.LeadsTo schema target)
    (h : WellTyped schema target inner) : WellTyped schema thing (.nested path cardinality field.tunnel? inner)
  /-- The filter without columns fits everything. -/
  | falsy {thing : Thing} : WellTyped schema thing .falsy

/-- Every column has a key of its own, and every sort key leads to one of them. -/
structure Column.Keyed (columns : List Column) (sort : List SortKey) : Prop where
  distinct : (columns.map (·.outputKey)).Nodup
  sorted : ∀ key ∈ sort, sortColumn key.field columns ∈ columns.map (·.outputKey)

/-- The column fits the records of a thing. -/
inductive Column.WellTyped (schema : Schema) : Thing → Column → Prop where
  /-- The key and the table of a record can always be returned. -/
  | metadata {thing : Thing} {field : MetaField} {label : Option String} :
    WellTyped schema thing (.metadata field label)
  /-- Data is returned as it is stored. -/
  | data {thing : Thing} {path : String} {label : Option String} (h : thing.HasData path) :
    WellTyped schema thing (.data path label)
  /-- The pointers of a reference, a link or a role are returned as keys. -/
  | reference {thing : Thing} {path : String} {label : Option String} {cardinality : Cardinality} {field : Field}
    (hfield : thing.field? path = some field) (hkind : field.kind.isPointer = true)
    (hcard : field.kind.cardinality? = some cardinality) :
    WellTyped schema thing (.reference path label cardinality field.tunnel?)
  /-- Pointers are returned as keys and plain values as they are where a field may hold either. -/
  | flex {thing : Thing} {path : String} {label : Option String} {cardinality : Cardinality} {field : Field}
    (hfield : thing.field? path = some field) (hkind : field.kind = .ref .flex cardinality) :
    WellTyped schema thing (.flex path label cardinality)
  /-- The records that a link or a role leads to are returned with columns that fit the thing at the other end. -/
  | nested {thing target : Thing} {scope : NestedScope} {columns : List Column} {field : Field}
    (hfield : thing.field? scope.path = some field) (hleads : field.LeadsTo schema target)
    (hthing : scope.thing = target.name) (htunnel : scope.tunnel = field.tunnel?)
    (hfilter : ∀ f, scope.filter = some f → f.WellTyped schema target)
    (hcolumns : ∀ c ∈ columns, WellTyped schema target c) (hkeyed : Column.Keyed columns scope.sort) :
    WellTyped schema thing (.nested scope columns)

/-- The rows of the source are records of a thing. -/
inductive Source.WellTyped (schema : Schema) : Thing → Source → Prop where
  /-- All tables of the thing are scanned. -/
  | scan {thing : Thing} : WellTyped schema thing (.scan thing.variants)
  /-- Keys are looked up in all tables of the thing. -/
  | pointer {thing : Thing} {ids : List String} : WellTyped schema thing (.pointer thing.variants ids)
  /-- A link or a role of other records, which are those of one thing, leads to the tables of the thing. -/
  | subquery {thing target pointed : Thing} {start : Source} {path : String} {filter : Option Filter}
    {cardinality : Cardinality} {field : Field} (htarget : schema.thing? target.name = some target)
    (hstart : WellTyped schema target start) (hfilter : ∀ f, filter = some f → f.WellTyped schema target)
    (hfield : target.field? path = some field) (hleads : field.LeadsTo schema pointed)
    (htables : sameTables pointed.variants thing.variants = true) :
    WellTyped schema thing (.subquery start path filter cardinality)

/-- All parts of the plan fit a thing. -/
structure Plan.Fits (schema : Schema) (plan : Plan) (thing : Thing) : Prop where
  queried : schema.thing? plan.thing = some thing
  source : plan.source.WellTyped schema thing
  filter : ∀ f, plan.filter = some f → f.WellTyped schema thing
  columns : ∀ c ∈ plan.columns, c.WellTyped schema thing
  /-- The columns have keys of their own, to which the sort keys lead. -/
  keyed : Column.Keyed plan.columns plan.sort

/-- The plan fits the thing that it queries. -/
def Plan.WellTyped (schema : Schema) (plan : Plan) : Prop := ∃ thing, plan.Fits schema thing

/-! ### Rewritten filters -/

namespace Filter

/-- Whether a filter is well typed depends only on its columns. -/
theorem columnwise_wellTyped (schema : Schema) : Columnwise (fun thing f => f.WellTyped schema thing) where
  falsy _ := .falsy
  and_iff := by
    intro thing children
    refine ⟨fun h => ?_, .and⟩
    cases h
    assumption
  or_iff := by
    intro thing children
    refine ⟨fun h => ?_, .or⟩
    cases h
    assumption
  not_iff := by
    intro thing child
    refine ⟨fun h => ?_, .not⟩
    cases h
    assumption
  scalar := by
    intro thing op op' left v v' h
    cases h with
    | scalar hdata => exact .scalar hdata
  list := by
    intro thing op op' left values v h
    cases h with
    | list hdata => exact .scalar hdata
  ref := by
    intro thing op op' left ids ids' tables tunnel h
    cases h with
    | reference hfield hkind => exact .reference hfield hkind
    | relationship hfield hleads => exact .relationship hfield hleads
  nested := by
    intro thing path cardinality tunnel inner inner' h hinner
    cases h with
    | nested hfield hleads h => exact .nested hfield hleads (hinner _ h)

/-! ### Filters from queries -/

variable {schema : Schema} {thing : Thing}

theorem WellTyped.null_of_hasData {op : NullOp} {left : String} (h : thing.HasData left) :
    WellTyped schema thing (.null op left none) := by
  rcases h with rfl | ⟨field, hfield, hdata⟩
  · exact .nullKey
  · have htunnel : field.tunnel? = none := by
      unfold Field.tunnel?
      split
      · rename_i hkind
        rw [hkind] at hdata
        cases hdata
      · rfl
    rw [← htunnel]
    exact .null hfield (.inl hdata)

theorem wellTyped_of_existence {left : String} {tunnel : Option String} {v : Json} {f : Filter}
    (hnull : ∀ op, WellTyped schema thing (.null op left tunnel)) (h : existence left tunnel v = .ok f) :
    f.WellTyped schema thing := by
  unfold existence at h
  split at h
  · cases h
    exact hnull _
  · cases h
    exact hnull _
  · cases h

theorem wellTyped_of_dataOperator {left op : String} {operand : Json} {f : Filter} (hdata : thing.HasData left)
    (h : dataOperator left op operand = .ok f) : f.WellTyped schema thing := by
  unfold dataOperator at h
  split at h
  · exact wellTyped_of_existence (fun _ => .null_of_hasData hdata) h
  · split at h
    · split at h
      · split at h
        · cases h
          exact .null_of_hasData hdata
        · cases h
          exact .null_of_hasData hdata
        · cases h
      · cases h
        exact .scalar hdata
    · split at h
      · split at h
        · cases h
          exact .list hdata
        · cases h
      · split at h <;> cases h

theorem wellTyped_of_ofData {left : String} {cardinality : Cardinality} {v : Json} {f : Filter}
    (hdata : thing.HasData left) (h : ofData left cardinality v = .ok f) : f.WellTyped schema thing := by
  unfold ofData at h
  split at h
  · cases h
    exact .null_of_hasData hdata
  · cases h
    exact .list hdata
  · cases h
  · obtain ⟨fs, hfs, rfl⟩ := ok_of_map h
    refine (columnwise_wellTyped schema).all_iff.2 fun g hg => ?_
    obtain ⟨⟨op, operand⟩, _, hop⟩ := ok_of_mem_mapM hfs g hg
    exact wellTyped_of_dataOperator hdata hop
  · cases h
    exact .scalar hdata

theorem wellTyped_of_ofReference {left : String} {field : Field} {cardinality : Cardinality} {v : Json} {f : Filter}
    (hfield : thing.field? left = some field) (hkind : field.kind = .ref .ref cardinality)
    (h : ofReference left cardinality v = .ok f) : f.WellTyped schema thing := by
  have htunnel : field.tunnel? = none := by simp [Field.tunnel?, hkind]
  unfold ofReference at h
  split at h
  · cases h
    rw [← htunnel]
    exact .null hfield (.inr (by rw [hkind]; rfl))
  · obtain ⟨ids, _, rfl⟩ := ok_of_map h
    exact .reference hfield hkind

/-- The relationship is a link or a role of a thing, with the tables of the thing at its other end. -/
structure Relationship.Fits (schema : Schema) (thing : Thing) (rel : Relationship) (field : Field) (target : Thing) :
    Prop where
  named : thing.field? rel.name = some field
  /-- The thing is at the other end of the field. -/
  leads : field.LeadsTo schema target
  /-- The thing is found under the given name. -/
  found : schema.thing? rel.target = some target
  /-- The tables are those of the thing. -/
  tables : rel.tables = target.variants
  /-- The field leads on to the given role. -/
  tunnel : rel.tunnel = field.tunnel?

namespace Relationship.Fits

variable {rel : Relationship} {field : Field} {target : Thing}

theorem reference (hrel : rel.Fits schema thing field target) (op : ListOp) (ids : List String) :
    WellTyped schema thing (rel.reference op ids) := by
  unfold Relationship.reference
  rw [hrel.tables, hrel.tunnel]
  exact .relationship hrel.named hrel.leads

theorem null (hrel : rel.Fits schema thing field target) (op : NullOp) :
    WellTyped schema thing (.null op rel.name rel.tunnel) := by
  obtain ⟨opposite, hopp, _⟩ := hrel.leads
  rw [hrel.tunnel]
  exact .null hrel.named (.inr (FieldKind.isPointer_of_opposite? hopp))

theorem operator (hrel : rel.Fits schema thing field target) {op : String} {operand : Json} {f : Filter}
    (h : rel.operator op operand = .ok (some f)) : f.WellTyped schema thing := by
  have hids : ∀ {op' : ListOp}, ((idsOf rel.name operand).map fun ids => some (rel.reference op' ids)) = .ok (some f) →
      f.WellTyped schema thing := by
    intro op' h
    obtain ⟨ids, _, he⟩ := ok_of_map h
    cases he
    exact hrel.reference op' ids
  unfold Relationship.operator at h
  split at h
  · obtain ⟨g, hg, he⟩ := ok_of_map h
    cases he
    exact wellTyped_of_existence hrel.null hg
  · split at h
    · split at h
      · cases h
        exact hrel.null _
      · exact hids h
    · split at h
      · cases h
        exact hrel.null _
      · exact hids h
    · exact hids h
    · exact hids h
    · cases h
    · cases h
    · cases h
    · cases h
    · split at h
      · exact hids h
      · cases h

theorem nested (hrel : rel.Fits schema thing field target) {inner : List Filter}
    (h : ∀ f ∈ inner, f.WellTyped schema target) (cardinality : Cardinality) :
    WellTyped schema thing (.nested rel.name cardinality rel.tunnel (all inner)) := by
  rw [hrel.tunnel]
  exact .nested hrel.named hrel.leads ((columnwise_wellTyped schema).all_iff.2 h)

theorem operators (hrel : rel.Fits schema thing field target) {members : List (String × Json)} {fs : List Filter}
    (h : rel.operators members = .ok fs) : ∀ f ∈ fs, f.WellTyped schema thing := by
  obtain ⟨results, hresults, rfl⟩ := ok_of_map h
  intro f hf
  obtain ⟨result, hresult, rfl⟩ := List.mem_filterMap.1 hf
  obtain ⟨⟨op, operand⟩, _, hop⟩ := ok_of_mem_mapM hresults (some f) hresult
  exact hrel.operator hop

end Relationship.Fits

theorem exists_fits_of_subject {key : String} {rel : Relationship} (hvalid : schema.validate = .ok ())
    (hthing : schema.thing? thing.name = some thing) (h : subject schema thing key = .ok (.relationship rel)) :
    ∃ field target, rel.Fits schema thing field target := by
  cases subjectOf_of_subject h with
  | relationship hfield hopp hcard =>
    obtain ⟨target, htarget⟩ := Schema.exists_thing?_of_validate hvalid hthing hfield hopp
    exact ⟨_, target, hfield, ⟨_, hopp, htarget⟩, htarget, by simp [htarget], rfl⟩

theorem hasData_of_subject {key left : String} {cardinality : Cardinality}
    (h : subject schema thing key = .ok (.data left cardinality)) : thing.HasData left := by
  cases subjectOf_of_subject h with
  | data hfield hkind =>
    split
    · exact .inl rfl
    · exact .inr ⟨_, hfield, by rw [hkind]; rfl⟩

mutual

/-- The filter of an accepted query fits the thing in whose scope it is read. -/
theorem wellTyped_of_ofJson (hvalid : schema.validate = .ok ()) (v : Json) :
    ∀ {thing f}, schema.thing? thing.name = some thing → ofJson schema thing v = .ok f → f.WellTyped schema thing := by
  intro thing f hthing h
  match v with
  | .object members =>
    rw [ofJson] at h
    obtain ⟨fs, hfs, rfl⟩ := ok_of_map h
    exact (columnwise_wellTyped schema).all_iff.2 (wellTyped_of_ofMembers hvalid members hthing hfs)
  | .array items =>
    rw [ofJson] at h
    obtain ⟨fs, hfs, rfl⟩ := ok_of_map h
    exact (columnwise_wellTyped schema).any_iff.2 (wellTyped_of_ofItems hvalid items hthing hfs)
  | .null | .bool _ | .number _ | .string _ =>
    rw [ofJson] at h
    · cases h
    all_goals simp

theorem wellTyped_of_ofItems (hvalid : schema.validate = .ok ()) (items : List Json) :
    ∀ {thing fs}, schema.thing? thing.name = some thing → ofItems schema thing items = .ok fs →
      ∀ f ∈ fs, f.WellTyped schema thing := by
  intro thing fs hthing h
  match items with
  | [] =>
    cases h
    simp
  | v :: rest =>
    rw [ofItems] at h
    obtain ⟨g, hg, h⟩ := ok_of_bind h
    obtain ⟨gs, hgs, h⟩ := ok_of_bind h
    cases h
    exact List.forall_mem_cons.2 ⟨wellTyped_of_ofJson hvalid v hthing hg, wellTyped_of_ofItems hvalid rest hthing hgs⟩

theorem wellTyped_of_ofMembers (hvalid : schema.validate = .ok ()) (members : List (String × Json)) :
    ∀ {thing fs}, schema.thing? thing.name = some thing → ofMembers schema thing members = .ok fs →
      ∀ f ∈ fs, f.WellTyped schema thing := by
  intro thing fs hthing h
  match members with
  | [] =>
    cases h
    simp
  | (key, v) :: rest =>
    rw [ofMembers] at h
    obtain ⟨g, hg, h⟩ := ok_of_bind h
    obtain ⟨gs, hgs, h⟩ := ok_of_bind h
    cases h
    exact List.forall_mem_cons.2
      ⟨wellTyped_of_ofMember hvalid key v hthing hg, wellTyped_of_ofMembers hvalid rest hthing hgs⟩

theorem wellTyped_of_ofLeftovers (hvalid : schema.validate = .ok ()) (members : List (String × Json)) :
    ∀ {thing fs}, schema.thing? thing.name = some thing → ofLeftovers schema thing members = .ok fs →
      ∀ f ∈ fs, f.WellTyped schema thing := by
  intro thing fs hthing h
  match members with
  | [] =>
    cases h
    simp
  | (key, v) :: rest =>
    rw [ofLeftovers] at h
    split at h
    · exact wellTyped_of_ofLeftovers hvalid rest hthing h
    · obtain ⟨g, hg, h⟩ := ok_of_bind h
      obtain ⟨gs, hgs, h⟩ := ok_of_bind h
      cases h
      exact List.forall_mem_cons.2
        ⟨wellTyped_of_ofMember hvalid key v hthing hg, wellTyped_of_ofLeftovers hvalid rest hthing hgs⟩

theorem wellTyped_of_ofMember (hvalid : schema.validate = .ok ()) (key : String) (v : Json) :
    ∀ {thing f}, schema.thing? thing.name = some thing → ofMember schema thing key v = .ok f →
      f.WellTyped schema thing := by
  intro thing f hthing h
  have htyped := columnwise_wellTyped schema
  rw [ofMember.eq_def] at h
  obtain ⟨s, hs, h⟩ := ok_of_bind h
  cases s with
  | data left cardinality => exact wellTyped_of_ofData (hasData_of_subject hs) h
  | reference left cardinality =>
    cases subjectOf_of_subject hs with
    | reference hfield hkind => exact wellTyped_of_ofReference hfield hkind h
  | disjunction =>
    match v with
    | .object members =>
      obtain ⟨fs, hfs, rfl⟩ := ok_of_map h
      exact htyped.any_iff.2 (wellTyped_of_ofMembers hvalid members hthing hfs)
    | .array items =>
      obtain ⟨fs, hfs, rfl⟩ := ok_of_map h
      exact htyped.any_iff.2 (wellTyped_of_ofItems hvalid items hthing hfs)
    | .null | .bool _ | .number _ | .string _ => cases h
  | conjunction =>
    match v with
    | .object members =>
      obtain ⟨fs, hfs, rfl⟩ := ok_of_map h
      exact htyped.all_iff.2 (wellTyped_of_ofMembers hvalid members hthing hfs)
    | .array items =>
      obtain ⟨fs, hfs, rfl⟩ := ok_of_map h
      exact htyped.all_iff.2 (wellTyped_of_ofItems hvalid items hthing hfs)
    | .null | .bool _ | .number _ | .string _ => cases h
  | negation =>
    match v with
    | .object members =>
      obtain ⟨fs, hfs, rfl⟩ := ok_of_map h
      exact .not (htyped.all_iff.2 (wellTyped_of_ofMembers hvalid members hthing hfs))
    | .array items =>
      obtain ⟨fs, hfs, rfl⟩ := ok_of_map h
      exact .not (htyped.any_iff.2 (wellTyped_of_ofItems hvalid items hthing hfs))
    | .null | .bool _ | .number _ | .string _ => cases h
  | relationship rel =>
    obtain ⟨field, target, hrel⟩ := exists_fits_of_subject hvalid hthing hs
    match v with
    | .null =>
      cases h
      exact hrel.null _
    | .string id =>
      cases h
      exact hrel.reference _ _
    | .array items =>
      obtain ⟨ids, _, rfl⟩ := ok_of_map h
      exact hrel.reference _ _
    | .object members =>
      dsimp only at h
      split at h
      · cases h
      · obtain ⟨parts, hparts, h⟩ := ok_of_bind h
        have hoperators := hrel.operators hparts
        split at h
        · cases h
          exact htyped.all_iff.2 hoperators
        · obtain ⟨target', htarget', h⟩ := ok_of_bind h
          obtain ⟨inner, hinner, h⟩ := ok_of_bind h
          cases h
          -- the leftover members are read in the scope of the thing at the other end
          cases hrel.found.symm.trans (thing?_of_targetThing htarget')
          have hleftovers := wellTyped_of_ofLeftovers hvalid members (Schema.thing?_name hrel.found) hinner
          exact htyped.all_iff.2
            (List.forall_mem_append.2 ⟨hoperators, List.forall_mem_singleton.2 (hrel.nested hleftovers _)⟩)
    | .bool _ | .number _ => cases h

end

end Filter

end ThingQuery
