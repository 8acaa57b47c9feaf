import Mathlib.Data.Finset.Max
import ThingQuery.Proofs.SingleRow

/-!
# Lookups of keys and scans for them

Records can be asked for by their keys or by a filter that lists the keys under a key field.  On a store where every
record has a key of its own in its table, both ways keep the same rows, and so do their better plans, exactly when no
key is listed twice and the key field is a data field (`Store.planRows_byKeys_perm_iff`): a repeated key is looked up
once for each time it is listed, and a scan finds its record once.
-/

namespace ThingQuery

/-! ### Two ways to ask for keys -/

namespace Query

/-- The query for the records with the listed keys. -/
def byKeys (query : Query) (ids : List String) : Query :=
  { query with options := { query.options with id := some (.many ids), filter := none } }

/-- The query for the records that hold one of the listed keys in a field. -/
def byKeyFilter (query : Query) (field : String) (ids : List String) : Query :=
  { query with options := { query.options with
      id := none
      filter := some (.object [(field, .object [("$in", .array (ids.map .string))])]) } }

end Query

/-- An accepted level has the filter that the given value describes, unless that always holds. -/
theorem Level.filter_of_build {schema : Schema} {thing : Thing} {options : Options} {columns : List Column}
    {level : Level} (h : Level.build schema thing options columns = .ok level) :
    (options.filter = none → level.filter = none) ∧
      ∀ v, options.filter = some v → ∃ f, Filter.ofJson schema thing v = .ok f ∧
        level.filter = (some f).filter (!·.isTruthy) := by
  unfold Level.build at h
  cases hv : options.filter with
  | none =>
    rw [hv] at h
    obtain ⟨_, hbuilt, h⟩ := ok_of_bind h
    cases hbuilt
    obtain ⟨_, _, h⟩ := ok_of_bind h
    obtain ⟨_, _, h⟩ := ok_of_bind h
    cases h
    exact ⟨fun _ => rfl, nofun⟩
  | some v =>
    rw [hv] at h
    obtain ⟨_, hbuilt, h⟩ := ok_of_bind h
    obtain ⟨f, hf, rfl⟩ := ok_of_map hbuilt
    obtain ⟨_, _, h⟩ := ok_of_bind h
    obtain ⟨_, _, h⟩ := ok_of_bind h
    cases h
    refine ⟨nofun, fun w hw => ?_⟩
    cases hw
    exact ⟨f, hf, rfl⟩

/-- The filter of an accepted plan is the one that the value given in its query describes. -/
theorem Plan.filter_of_build {schema : Schema} {metadata : Bool} {query : Query} {plan : Plan} {thing : Thing}
    (hbuild : Plan.build schema metadata query = .ok plan) (hthing : schema.thing? query.thing = some thing) :
    plan.thing = thing.name ∧ (query.options.filter = none → plan.filter = none) ∧
      ∀ v, query.options.filter = some v → ∃ f, Filter.ofJson schema thing v = .ok f ∧
        plan.filter = (some f).filter (!·.isTruthy) := by
  obtain ⟨found, columns, level, hfound, _, hlevel, rfl⟩ := Plan.build_eq_ok hbuild
  cases hthing.symm.trans hfound
  exact ⟨rfl, Level.filter_of_build hlevel⟩

namespace Filter

variable {schema : Schema} {thing : Thing}

theorem mapM_string?_map (ids : List String) : (ids.map Json.string).mapM Json.string? = some ids := by
  induction ids with
  | nil => rfl
  | cons id rest ih =>
    rw [List.map_cons, List.mapM_cons, ih]
    rfl

theorem ofJson_singleton (key : String) (v : Json) :
    ofJson schema thing (.object [(key, v)]) = ofMember schema thing key v := by
  rw [ofJson, ofMembers, ofMembers]
  cases ofMember schema thing key v <;> rfl

theorem Relationship.operators_in (rel : Relationship) (ids : List String) :
    rel.operators [("$in", .array (ids.map .string))] = .ok [rel.reference .isIn ids] := by
  have hids : idsOf rel.name (.array (ids.map .string)) = .ok ids := by
    unfold idsOf
    simp only [mapM_string?_map]
  have hone : rel.operator "$in" (.array (ids.map .string)) = .ok (some (rel.reference .isIn ids)) := by
    change (idsOf rel.name (.array (ids.map .string))).map _ = _
    rw [hids]
    rfl
  unfold operators
  rw [List.mapM_cons]
  dsimp only
  rw [hone]
  rfl

/-- A list of keys under a key field is compared with the key column if the field holds data, and with its pointers if
it is a link or a role. -/
theorem ofJson_keyFilter {field : String} {ids : List String} {f : Filter} (hkey : thing.isIdField field = true)
    (h : ofJson schema thing (.object [(field, .object [("$in", .array (ids.map .string))])]) = .ok f) :
    ((thing.field? field).any (·.kind.isRelational) = false ∧ f = .list .isIn idColumn (ids.map .string)) ∨
      (thing.field? field).any (·.kind.isRelational) = true ∧
        ∃ tables tunnel, f = .ref .isIn field ids (some tables) tunnel := by
  have hconnective : ofMembers schema thing [("$in", .array (ids.map .string))] =
      .error (.unknownConnective "$in") := by
    rw [ofMembers, ofMember]
    rfl
  rw [ofJson_singleton, ofMember] at h
  obtain ⟨s, hs, h⟩ := ok_of_bind h
  cases subjectOf_of_subject hs with
  | disjunction =>
    simp only [hconnective] at h
    cases h
  | conjunction =>
    simp only [hconnective] at h
    cases h
  | negation =>
    simp only [hconnective] at h
    cases h
  | data hfield hkind =>
    rw [if_pos hkey] at h
    cases h
    exact .inl ⟨by simp [hfield, hkind, FieldKind.isRelational], rfl⟩
  | reference hfield hkind => cases h
  | @relationship found _ _ hfield hopposite _ =>
    have hrelational : found.kind.isRelational = true := by
      cases hkind : found.kind <;> rw [hkind] at hopposite <;> first | rfl | cases hopposite
    right
    refine ⟨by simp [hfield, hrelational], ?_⟩
    dsimp only at h
    rw [Relationship.operators_in] at h
    cases h
    exact ⟨_, _, rfl⟩

end Filter

/-! ### Stores with keys -/

namespace Store

/-- Every record has a key of its own in its table. -/
structure Keyed (store : Store) : Prop where
  keyed : ∀ table ∈ store.tables.keys, ∀ row ∈ store.scan table, row.id?.isSome = true
  /-- No two records of a table have the same key. -/
  distinct : ∀ table ∈ store.tables.keys, ((store.scan table).map Row.id?).Nodup

variable {store : Store} {schema : Schema} {thing : Thing} {ids : List String}

/-- A schema without things asks nothing of a store but its keys. -/
theorem Keyed.consistent (h : store.Keyed) : store.Consistent Schema.empty :=
  ⟨h.keyed, h.distinct, nofun, nofun⟩

/-- A record satisfies the filter that lists keys exactly when its key is among them. -/
theorem satisfies_keys_iff {row : Row} :
    store.satisfies (.list .isIn idColumn (ids.map .string)) row.record = true ↔ ∃ id ∈ ids, row.id? = some id := by
  simp only [satisfies, ListOp.test, List.any_eq_true, List.mem_map, exists_exists_and_eq_and, Json.isSame_string_iff,
    Row.id?]

/-- A scan reaches the records that satisfy its filter. -/
theorem reaches_scan (hstore : store.Keyed) (htables : thing.variants.Nodup) (filter : Filter) :
    store.Reaches thing filter (.scan thing.variants, some filter) := by
  refine ⟨Nodup.retain (hstore.consistent.nodup_thingRows htables), fun row => ?_⟩
  simp [mem_retain_iff, thingRows]

/-- The normal form of a filter that lists keys is no connective and leads to no relationship. -/
theorem normalize_keys (schema : Schema) (way : Thing → Filter → Option Access) (name : String) (values : List Json) :
    let normal := (Filter.list .isIn idColumn values).normalize
    normal.isTruthy = false ∧ normal.conjuncts = [normal] ∧ normal.reorderFor schema name = normal ∧
      schema.traversal? way name normal = none := by
  have hsame : ∀ f : Filter, (∀ t, f.reorder t = f) → f.reorderFor schema name = f := by
    intro f hf
    unfold Filter.reorderFor
    split
    · exact hf _
    · rfl
  match values with
  | [] => exact ⟨rfl, rfl, hsame _ fun _ => rfl, rfl⟩
  | [v] => exact ⟨rfl, rfl, hsame _ fun _ => rfl, rfl⟩
  | _ :: _ :: _ => exact ⟨rfl, rfl, hsame _ fun _ => rfl, rfl⟩

/-- The better way for a filter that lists keys reaches their records. -/
theorem reaches_improveWith_keys (hstore : store.Keyed) (htables : thing.variants.Nodup)
    (way : Thing → Filter → Option Access) (values : List Json) :
    store.Reaches thing (.list .isIn idColumn values)
      (schema.improveWith way thing.name (.scan thing.variants) (some (.list .isIn idColumn values))) := by
  obtain ⟨htruthy, hconj, hreorder, htraversal⟩ := normalize_keys schema way thing.name values
  have hmeaning := store.satisfies_normalize (.list .isIn idColumn values)
  rcases schema.improveWith_cases way thing.name (.scan thing.variants) (some (.list .isIn idColumn values)) with
    ⟨hnone, _⟩ | ⟨f, hf, _, he, _⟩ | ⟨f, tables, start, access, hf, _, ht, hstart, hbetter, he⟩
  · rw [hnone _ rfl] at htruthy
    cases htruthy
  · cases hf
    rw [he, hreorder]
    have hscan := reaches_scan hstore htables (Filter.list .isIn idColumn values).normalize
    refine ⟨hscan.nodup, fun row => ?_⟩
    rw [hscan.mem_iff, hmeaning]
  · cases hf
    cases ht
    rw [hreorder, or_self] at hstart
    subst hstart
    obtain ⟨first, rest, hfirst, hsource, hrest⟩ := Schema.improveScan?_eq_some hbetter
    rw [hconj] at hfirst
    cases hfirst
    rw [htraversal, or_iff_left nofun] at hsource
    have hlookup := reaches_pointLookup? hstore.consistent htables hsource
    rw [he, hrest]
    refine ⟨hlookup.nodup, fun row => ?_⟩
    rw [← hmeaning, ← hlookup.mem_iff]
    rfl

/-! ### A store with one record -/

/-- The record of a table that has nothing but a key. -/
def loneRow (table id : String) : Row := ⟨table, .object [(idColumn, .string id)]⟩

/-- The store of that record alone. -/
def loneStore (table id : String) : Store := empty.insert table (loneRow table id).record

theorem scan_loneStore (table id other : String) :
    (loneStore table id).scan other = if other = table then [loneRow table id] else [] := by
  unfold loneStore
  split
  · rename_i h
    subst h
    rw [scan_insert_self]
    rfl
  · rename_i h
    rw [scan_insert_of_ne _ _ h]
    rfl

theorem eq_loneRow_of_mem_scan {table id other : String} {row : Row} (h : row ∈ (loneStore table id).scan other) :
    row = loneRow table id := by
  rw [scan_loneStore] at h
  split at h
  · exact List.mem_singleton.1 h
  · cases h

theorem keyed_loneStore (table id : String) : (loneStore table id).Keyed := by
  constructor
  · intro other _ row hrow
    rw [eq_loneRow_of_mem_scan hrow]
    rfl
  · intro other _
    rw [scan_loneStore]
    split <;> simp

theorem get?_loneStore (table id : String) : (loneStore table id).get? table id = some (loneRow table id) :=
  (keyed_loneStore table id).consistent.get?_eq_some_iff.2 ⟨by simp [scan_loneStore], rfl⟩

/-- A key that is listed twice is looked up twice. -/
theorem not_nodup_pointer_loneStore {id : String} (h : List.Sublist [id, id] ids) :
    ¬((loneStore thing.name id).sourceRows (.pointer thing.variants ids)).Nodup := by
  have htwice : List.Sublist [loneRow thing.name id, loneRow thing.name id]
      (ids.filterMap ((loneStore thing.name id).get? thing.name)) := by
    have := h.filterMap ((loneStore thing.name id).get? thing.name)
    simpa [get?_loneStore] using this
  intro hnodup
  unfold sourceRows Thing.variants at hnodup
  rw [List.flatMap_cons, List.nodup_append] at hnodup
  have := hnodup.1.sublist htwice
  simp at this

/-- The text that the record holds does not lead back to it. -/
theorem resolve?_loneStore (table id : String) : (loneStore table id).resolve? id = none := by
  cases h : (loneStore table id).resolve? id with
  | none => rfl
  | some row =>
    obtain ⟨hrow, key, hkey, hsplit⟩ := resolve?_eq_some h
    rw [eq_loneRow_of_mem_scan hrow] at hkey
    cases hkey
    have hlength := congrArg String.length (splitPointer?_eq_some hsplit)
    simp [pointerText] at hlength

theorem eq_of_mem_textsOf_loneRow {table id path text : String}
    (h : text ∈ textsOf ((loneRow table id).record.get? path)) : text = id := by
  change text ∈ textsOf ([(idColumn, Json.string id)].lookup path) at h
  by_cases hpath : path = idColumn
  · subst hpath
    simpa [textsOf] using h
  · have hbeq : (path == idColumn) = false := by simpa using hpath
    simp [List.lookup_cons, hbeq, textsOf] at h

/-- The record does not satisfy a comparison of pointers with keys of which none is shorter than its own. -/
theorem satisfies_ref_loneRow (table : String) {id : String} (hshortest : ∀ key ∈ ids, id.length ≤ key.length)
    (path : String) (tables : Option (List String)) (tunnel : Option String) :
    (loneStore table id).satisfies (.ref .isIn path ids tables tunnel) (loneRow table id).record = false := by
  rw [Bool.eq_false_iff]
  intro h
  simp only [satisfies, ListOp.testKeys, List.any_eq_true] at h
  obtain ⟨key, hkey, text, htext, hpoints⟩ := h
  unfold pointers at htext
  cases tunnel with
  | none =>
    cases eq_of_mem_textsOf_loneRow htext
    unfold pointsTo at hpoints
    split at hpoints
    · rename_i found hsplit
      have hfound := eq_of_beq (Bool.and_eq_true_iff.1 hpoints).1
      have hlength := congrArg String.length (splitPointer?_eq_some hsplit)
      have hle := hshortest key hkey
      simp only [pointerText, String.length_append, hfound] at hlength
      have hcolon : ":".length = 1 := rfl
      omega
    · cases hpoints
  | some role =>
    obtain ⟨row, hrow, _⟩ := List.mem_flatMap.1 htext
    obtain ⟨direct, hdirect, hresolve⟩ := List.mem_filterMap.1 hrow
    rw [eq_of_mem_textsOf_loneRow hdirect, resolve?_loneStore] at hresolve
    cases hresolve

/-- No better way for a comparison of pointers with keys, of which none is shorter than that of the record, leads to the
record. -/
theorem notMem_improveWith_ref_loneStore {id path : String} (hid : id ∈ ids)
    (hshortest : ∀ key ∈ ids, id.length ≤ key.length) (way : Thing → Filter → Option Access)
    (tables : List String) (tunnel : Option String) :
    let access := schema.improveWith way thing.name (.scan thing.variants)
      (some (.ref .isIn path ids (some tables) tunnel))
    loneRow thing.name id ∉
      (loneStore thing.name id).retain access.2 ((loneStore thing.name id).sourceRows access.1) := by
  intro access hmem
  have hnormal : (Filter.ref .isIn path ids (some tables) tunnel).normalize =
      .ref .isIn path ids (some tables) tunnel := by
    obtain ⟨first, rest, rfl⟩ := List.exists_cons_of_ne_nil (List.ne_nil_of_mem hid)
    simp [Filter.normalize_ref_cons]
  have hreorder : (Filter.ref .isIn path ids (some tables) tunnel).reorderFor schema thing.name =
      .ref .isIn path ids (some tables) tunnel := by
    unfold Filter.reorderFor
    split <;> rfl
  have hno := satisfies_ref_loneRow thing.name hshortest path (some tables) tunnel
  rcases schema.improveWith_cases way thing.name (.scan thing.variants)
      (some (.ref .isIn path ids (some tables) tunnel)) with
    ⟨hnone, _⟩ | ⟨f, hf, _, he, _⟩ | ⟨f, scanned, start, better, hf, _, _, hstart, hbetter, he⟩
  · have htruthy := hnone _ rfl
    rw [hnormal] at htruthy
    cases htruthy
  · cases hf
    dsimp only [access] at hmem
    rw [he, hnormal, hreorder] at hmem
    rw [(mem_retain_iff.1 hmem).2 _ rfl] at hno
    cases hno
  · cases hf
    rw [hnormal, hreorder, or_self] at hstart
    subst hstart
    obtain ⟨first, rest, hfirst, hsource, _⟩ := Schema.improveScan?_eq_some hbetter
    cases hfirst
    have hrow : loneRow thing.name id ∈ (loneStore thing.name id).sourceRows better.1 := by
      dsimp only [access] at hmem
      rw [he] at hmem
      exact (mem_retain_iff.1 hmem).1
    rcases hsource with hsource | hsource
    · cases hsource
    · rcases Schema.traversal?_cases hsource with
        ⟨_, _, _, _, _, _, _, _, _, hfilter, _⟩ | ⟨_, _, _, _, _, _, opposite, _, _, _, _, hsubquery⟩
      · cases hfilter
      · -- whatever the record points to is its own key, which leads nowhere
        rw [hsubquery, mem_subquery_iff] at hrow
        obtain ⟨other, hother, text, htext, hresolve⟩ := hrow
        have hscan := ((keyed_loneStore thing.name id).consistent.mem_pointer_iff.1 hother).2.1
        rw [eq_loneRow_of_mem_scan hscan] at htext
        rw [eq_of_mem_textsOf_loneRow htext, resolve?_loneStore] at hresolve
        cases hresolve

/-- A comparison of pointers with no keys keeps no rows, also in a better way. -/
theorem retain_improveWith_ref_nil (store : Store) (way : Thing → Filter → Option Access) (name path : String)
    (source tables : List String) (tunnel : Option String) :
    let access := schema.improveWith way name (.scan source) (some (.ref .isIn path [] (some tables) tunnel))
    store.retain access.2 (store.sourceRows access.1) = [] := by
  intro access
  have haccess : access = (.scan source, some .falsy) := by
    have hreorder : Filter.falsy.reorderFor schema name = .falsy := by
      unfold Filter.reorderFor
      split <;> rfl
    have hnormal : (Filter.ref .isIn path [] (some tables) tunnel).normalize = .falsy := rfl
    simp [access, Schema.improveWith, hnormal, hreorder, Filter.isTruthy, Schema.improveScan?, Filter.conjuncts,
      Source.pointLookup?, Schema.traversal?]
  rw [haccess]
  exact List.filter_eq_nil_iff.2 fun _ _ => Bool.false_ne_true

/-! ### Both ways compared -/

/-- What a way to the records of a thing does that comes from a filter listing keys under a key field: it reaches the
records with these keys, or it compares pointers.  In the second case it keeps nothing if there are no keys, and
otherwise misses a record with one of them. -/
inductive KeyAccess (thing : Thing) (ids : List String) : Bool → Access → Prop where
  | data {access : Access} (h : ∀ store : Store, store.Keyed →
      store.Reaches thing (.list .isIn idColumn (ids.map .string)) access) : KeyAccess thing ids false access
  /-- There are no keys to compare pointers with. -/
  | nothing {access : Access} (hids : ids = [])
    (h : ∀ store : Store, store.retain access.2 (store.sourceRows access.1) = []) : KeyAccess thing ids true access
  /-- The record with one of the keys is missed. -/
  | misses {access : Access} {id : String} (hid : id ∈ ids)
    (h : loneRow thing.name id ∉
      (loneStore thing.name id).retain access.2 ((loneStore thing.name id).sourceRows access.1)) :
    KeyAccess thing ids true access

theorem mem_pointer_loneStore {id : String} (hid : id ∈ ids) :
    loneRow thing.name id ∈ (loneStore thing.name id).sourceRows (.pointer thing.variants ids) := by
  rw [(keyed_loneStore thing.name id).consistent.mem_pointer_iff]
  exact ⟨List.mem_cons_self, by simp [scan_loneStore, loneRow], id, hid, rfl⟩

/-- A lookup of keys agrees with another way to them on all stores exactly when no key is listed twice and the other way
compares no pointers with keys. -/
theorem KeyAccess.perm_iff {isRelational : Bool} {access : Access} (htables : thing.variants.Nodup)
    (h : KeyAccess thing ids isRelational access) :
    (∀ store : Store, store.Keyed → (store.sourceRows (.pointer thing.variants ids)).Perm
        (store.retain access.2 (store.sourceRows access.1))) ↔
      ids.Nodup ∧ (isRelational = false ∨ ids = []) := by
  cases h with
  | data hreaches =>
    constructor
    · intro hperm
      refine ⟨List.nodup_iff_sublist.2 fun id htwice => ?_, .inl rfl⟩
      have hstore := keyed_loneStore thing.name id
      have hnodup := (hperm _ hstore).nodup_iff.2 (hreaches _ hstore).nodup
      exact not_nodup_pointer_loneStore htwice hnodup
    · rintro ⟨hids, _⟩ store hstore
      refine (List.perm_ext_iff_of_nodup (nodup_pointer htables hids) (hreaches store hstore).nodup).2 fun row => ?_
      rw [(hreaches store hstore).mem_iff, satisfies_keys_iff, hstore.consistent.mem_pointer_iff, mem_thingRows_iff,
        and_assoc]
  | nothing hids hnothing =>
    subst hids
    refine ⟨fun _ => ⟨List.nodup_nil, .inr rfl⟩, fun _ store _ => ?_⟩
    rw [hnothing]
    simp [sourceRows]
  | misses hid hmisses =>
    constructor
    · intro hperm
      exact absurd ((hperm _ (keyed_loneStore _ _)).mem_iff.1 (mem_pointer_loneStore hid)) hmisses
    · rintro ⟨_, hdata | rfl⟩
      · cases hdata
      · cases hid

theorem keyAccess_of_ofJson {field : String} {f : Filter} (htables : thing.variants.Nodup)
    (hkey : thing.isIdField field = true)
    (h : Filter.ofJson schema thing (.object [(field, .object [("$in", .array (ids.map .string))])]) = .ok f)
    (way : Thing → Filter → Option Access) :
    f.isTruthy = false ∧
      KeyAccess thing ids ((thing.field? field).any (·.kind.isRelational)) (.scan thing.variants, some f) ∧
      KeyAccess thing ids ((thing.field? field).any (·.kind.isRelational))
        (schema.improveWith way thing.name (.scan thing.variants) (some f)) := by
  rcases Filter.ofJson_keyFilter hkey h with ⟨hdata, rfl⟩ | ⟨hrelational, tables, tunnel, rfl⟩
  · rw [hdata]
    exact ⟨rfl, .data fun store hstore => reaches_scan hstore htables _,
      .data fun store hstore => reaches_improveWith_keys hstore htables way _⟩
  · rw [hrelational]
    refine ⟨rfl, ?_⟩
    by_cases hids : ids = []
    · subst hids
      refine ⟨.nothing rfl fun store => List.filter_eq_nil_iff.2 fun _ _ => ?_, .nothing rfl fun store => ?_⟩
      · exact Bool.false_ne_true
      · exact retain_improveWith_ref_nil store way thing.name field thing.variants tables tunnel
    · obtain ⟨id, hid, hshortest⟩ := Finset.exists_min_image ids.toFinset String.length
        (by simpa using hids)
      simp only [List.mem_toFinset] at hid hshortest
      refine ⟨.misses hid fun hmem => ?_, .misses hid ?_⟩
      · have hno := satisfies_ref_loneRow thing.name hshortest field (some tables) tunnel
        rw [(mem_retain_iff.1 hmem).2 _ rfl] at hno
        cases hno
      · exact notMem_improveWith_ref_loneStore hid hshortest way tables tunnel

/-- A lookup of listed keys and a scan for them under a key field keep the same rows on every store in which the records
of a table have different keys, and so do their better plans, exactly when no key is listed twice and the key field is a
data field, unless there are no keys. -/
theorem planRows_byKeys_perm_iff {metadata : Bool} {query : Query} {field : String} {lookup scan : Plan}
    (hlookup : Plan.build schema metadata (query.byKeys ids) = .ok lookup)
    (hscan : Plan.build schema metadata (query.byKeyFilter field ids) = .ok scan)
    (hthing : schema.thing? query.thing = some thing) (htables : thing.variants.Nodup)
    (hkey : thing.isIdField field = true) :
    ((∀ store : Store, store.Keyed → (store.planRows lookup).Perm (store.planRows scan)) ↔
        ids.Nodup ∧ ((thing.field? field).any (·.kind.isRelational) = false ∨ ids = [])) ∧
      ((∀ store : Store, store.Keyed →
          (store.planRows (lookup.optimize schema)).Perm (store.planRows (scan.optimize schema))) ↔
        ids.Nodup ∧ ((thing.field? field).any (·.kind.isRelational) = false ∨ ids = [])) := by
  have hpointer : lookup.source = .pointer thing.variants ids := source_eq_of_build hlookup hthing
  have hsource : scan.source = .scan thing.variants := source_eq_of_build hscan hthing
  have hnone : lookup.filter = none := (Plan.filter_of_build hlookup hthing).2.1 rfl
  obtain ⟨hname, _, hfilter⟩ := Plan.filter_of_build hscan hthing
  obtain ⟨f, hf, hsome⟩ := hfilter _ rfl
  obtain ⟨htruthy, hplain, hbetter⟩ := keyAccess_of_ofJson htables hkey hf schema.follow
  rw [Option.filter_some_pos (by simp [htruthy])] at hsome
  have hlookupRows : ∀ store : Store, store.planRows lookup = store.sourceRows (.pointer thing.variants ids) := by
    intro store
    rw [planRows, hpointer, hnone]
    rfl
  have hscanRows : ∀ store : Store,
      store.planRows scan = store.retain (some f) (store.sourceRows (.scan thing.variants)) := by
    intro store
    rw [planRows, hsource, hsome]
  have hkept : ∀ store : Store, store.planRows (lookup.optimize schema) = store.planRows lookup := fun store =>
    store.planRows_optimize_of_source_eq (Plan.source_optimize_of_ne_scan schema (by simp [hpointer]))
  constructor
  · rw [← hplain.perm_iff htables]
    simp only [hlookupRows, hscanRows]
  · rw [← hbetter.perm_iff htables]
    simp only [hkept, hlookupRows]
    rw [Plan.optimize_eq, hname, hsource, hsome]
    rfl

/-- The names of accounts. -/
def nameQuery : Query where
  thing := "Account"
  selection := .only [.field "name"]

/-- A plan for the names of accounts. -/
def namePlan (source : Source) (filter : Option Filter) : Plan where
  thing := "Account"
  source
  columns := [.data "name" none]
  filter
  limit := none
  offset := none
  sort := []
  cardinality := .many

theorem planRows_byKeys_perm_iff_accounts :
    Plan.build accountSchema false (nameQuery.byKeys ["b", "c", "a"]) =
        .ok (namePlan (.pointer ["Account"] ["b", "c", "a"]) none) ∧
      Plan.build accountSchema false (nameQuery.byKeyFilter "id" ["b", "c", "a"]) =
        .ok (namePlan (.scan ["Account"])
          (some (.list .isIn "id" [.string "b", .string "c", .string "a"]))) ∧
      accountThing.variants.Nodup ∧ accountThing.isIdField "id" = true ∧
      ∀ store : Store, store.Keyed →
        (store.planRows (namePlan (.pointer ["Account"] ["b", "c", "a"]) none)).Perm
          (store.planRows (namePlan (.scan ["Account"])
            (some (.list .isIn "id" [.string "b", .string "c", .string "a"])))) := by
  have hlookup : Plan.build accountSchema false (nameQuery.byKeys ["b", "c", "a"]) =
      .ok (namePlan (.pointer ["Account"] ["b", "c", "a"]) none) := rfl
  have hscan : Plan.build accountSchema false (nameQuery.byKeyFilter "id" ["b", "c", "a"]) =
      .ok (namePlan (.scan ["Account"]) (some (.list .isIn "id" [.string "b", .string "c", .string "a"]))) := rfl
  have hthing : accountSchema.thing? "Account" = some accountThing := rfl
  have htables : accountThing.variants.Nodup := by decide
  have hiff := planRows_byKeys_perm_iff hlookup hscan hthing htables (by decide)
  exact ⟨hlookup, hscan, htables, by decide, hiff.1.2 ⟨by decide, .inl (by decide)⟩⟩

/-- A key that is listed twice gives two rows when it is looked up and one when it is scanned for, also in better
plans. -/
theorem not_perm_planRows_byKeys_accounts :
    let lookup := namePlan (.pointer ["Account"] ["a", "a"]) none
    let scan := namePlan (.scan ["Account"]) (some (.list .isIn "id" [.string "a", .string "a"]))
    Plan.build accountSchema false (nameQuery.byKeys ["a", "a"]) = .ok lookup ∧
      Plan.build accountSchema false (nameQuery.byKeyFilter "id" ["a", "a"]) = .ok scan ∧
      accountThing.variants.Nodup ∧ accountThing.isIdField "id" = true ∧ (loneStore "Account" "a").Keyed ∧
      ¬((loneStore "Account" "a").planRows lookup).Perm ((loneStore "Account" "a").planRows scan) ∧
      ¬((loneStore "Account" "a").planRows (lookup.optimize accountSchema)).Perm
        ((loneStore "Account" "a").planRows (scan.optimize accountSchema)) := by
  intro lookup scan
  have hlookup : (loneStore "Account" "a").planRows lookup = [loneRow "Account" "a", loneRow "Account" "a"] := rfl
  have hscan : (loneStore "Account" "a").planRows scan = [loneRow "Account" "a"] := rfl
  have hlookup' : (loneStore "Account" "a").planRows (lookup.optimize accountSchema) =
      [loneRow "Account" "a", loneRow "Account" "a"] := rfl
  have hscan' : (loneStore "Account" "a").planRows (scan.optimize accountSchema) = [loneRow "Account" "a"] := rfl
  refine ⟨rfl, rfl, by decide, by decide, keyed_loneStore _ _, fun hperm => ?_, fun hperm => ?_⟩
  · rw [hlookup, hscan] at hperm
    exact absurd hperm.length_eq (by decide)
  · rw [hlookup', hscan'] at hperm
    exact absurd hperm.length_eq (by decide)

end Store

end ThingQuery
