import Mathlib.Data.List.Pairwise
import ThingQuery.Proofs.Cardinality
import ThingQuery.Proofs.SameRows

/-!
# Plans for one row

A plan that returns one row hides no other record when what makes it so leaves at most one: a single key, or a part of
its filter that fixes a unique column to a value which no two records hold (`Plan.Identifies`).  Unique columns may hold
null many times, and a list of nothing but null fixes a column to it.  A plan that rests on such lists alone may hide
records (`Store.planRows_of_cardinality_one`).
-/

namespace ThingQuery

/-! ### Unique columns -/

theorem Json.eq_of_same_string {s : String} {v : Json} (h : Json.same (.string s) v = true) : v = .string s := by
  cases v with
  | string t => rw [show s = t by simpa [Json.same] using h]
  | _ => simp [Json.same] at h

/-- The record holds a value in a column. -/
def Row.Holds (row : Row) (column : String) (v : Json) : Prop := Json.isSame (row.record.get? column) v = true

/-- No two records of a thing have the same key, and in a unique field no two hold the same value, unless it is null. -/
structure Store.UniqueIn (store : Store) (thing : Thing) : Prop where
  key : (store.thingRows thing).Pairwise fun r s => ∀ v, r.Holds idColumn v → ¬s.Holds idColumn v
  /-- A value other than null is held by one record at most. -/
  field : ∀ field ∈ thing.fields, field.kind.isUnique = true →
    (store.thingRows thing).Pairwise fun r s =>
      ∀ v, v.isNull = false → r.Holds field.name v → ¬s.Holds field.name v

namespace Filter

/-- The column that a filter fixes, with the value. -/
def fixed? : Filter → Option (String × Json)
  | .scalar .eq left v => some (left, v)
  | .list .isIn left [v] => some (left, v)
  | _ => none

theorem fixed?_eq_some {f : Filter} {left : String} {v : Json} (h : f.fixed? = some (left, v)) :
    f = .scalar .eq left v ∨ f = .list .isIn left [v] := by
  unfold fixed? at h
  split at h
  · cases h
    exact .inl rfl
  · cases h
    exact .inr rfl
  · cases h

theorem pins_iff {thing : Thing} {f : Filter} :
    f.pins thing = true ↔ ∃ left v, f.fixed? = some (left, v) ∧ thing.isUnique left = true := by
  constructor
  · intro h
    unfold pins at h
    split at h
    · exact ⟨_, _, rfl, h⟩
    · rw [Bool.and_eq_true, beq_iff_eq, List.length_eq_one_iff] at h
      obtain ⟨⟨v, rfl⟩, hunique⟩ := h
      exact ⟨_, v, rfl, hunique⟩
    · cases h
  · rintro ⟨left, v, hfixed, hunique⟩
    rcases fixed?_eq_some hfixed with rfl | rfl
    · exact hunique
    · simpa [pins] using hunique

theorem satisfies_of_fixed? {f : Filter} {left : String} {v : Json} (h : f.fixed? = some (left, v)) (store : Store)
    (row : Row) : store.satisfies f row.record = true ↔ row.Holds left v := by
  rcases fixed?_eq_some h with rfl | rfl <;> simp [Store.satisfies, ScalarOp.test, ListOp.test, Row.Holds]

/-- The filter fixes a unique column to a value that no two records hold: the column is that of the key, or the value is
not null. -/
def Identifies (thing : Thing) (f : Filter) : Prop :=
  ∃ left v, f.fixed? = some (left, v) ∧ thing.isUnique left = true ∧ (left = idColumn ∨ v.isNull = false)

end Filter

/-- The query asks for a single key, or a part of the filter fixes a unique column to a value that no two records
hold. -/
def Plan.Identifies (thing : Thing) (query : Query) (plan : Plan) : Prop :=
  (query.options.id.bind IdSelector.single?).isSome = true ∨
    ∃ f, plan.filter = some f ∧ ∃ c ∈ f.conjuncts, c.Identifies thing

theorem eq_of_pairwise_not_both {α : Type} {P : α → Prop} {xs : List α} (h : xs.Pairwise fun a b => ¬(P a ∧ P b))
    {a b : α} (ha : a ∈ xs) (hb : b ∈ xs) (hPa : P a) (hPb : P b) : a = b := by
  have hsymm : Std.Symm fun a b => ¬(P a ∧ P b) := ⟨fun _ _ hnot hboth => hnot hboth.symm⟩
  by_contra hne
  exact h.forall ha hb hne ⟨hPa, hPb⟩

theorem length_le_one_of_pairwise {α : Type} {R : α → α → Prop} {xs : List α} (h : xs.Pairwise R)
    (hxs : ∀ a ∈ xs, ∀ b ∈ xs, ¬R a b) : xs.length ≤ 1 := by
  match xs with
  | [] => simp
  | [_] => simp
  | a :: b :: rest =>
    have hab : R a b := (List.pairwise_cons.1 h).1 b List.mem_cons_self
    exact absurd hab (hxs a List.mem_cons_self b (List.mem_cons_of_mem _ List.mem_cons_self))

namespace Store

variable {store : Store} {thing : Thing}

/-- A value that identifies a record is held by one record at most. -/
theorem UniqueIn.pairwise_of_identifies (h : store.UniqueIn thing) {f : Filter} (hf : f.Identifies thing) :
    (store.thingRows thing).Pairwise fun r s =>
      ¬(store.satisfies f r.record = true ∧ store.satisfies f s.record = true) := by
  obtain ⟨left, v, hfixed, hunique, hvalue⟩ := hf
  simp only [Filter.satisfies_of_fixed? hfixed]
  by_cases hkey : left = idColumn
  · subst hkey
    refine h.key.imp fun hrs hboth => ?_
    exact hrs v hboth.1 hboth.2
  · have hnull := hvalue.resolve_left hkey
    unfold Thing.isUnique at hunique
    rw [Bool.or_eq_true, beq_iff_eq, or_iff_right hkey, Option.any_eq_true] at hunique
    obtain ⟨field, hfield, hkind⟩ := hunique
    obtain ⟨hmem, rfl⟩ := Thing.mem_of_field? hfield
    refine (h.field field hmem hkind).imp fun hrs hboth => ?_
    exact hrs v hnull hboth.1 hboth.2

/-- A key is that of one record at most. -/
theorem UniqueIn.pairwise_id? (h : store.UniqueIn thing) (id : String) :
    (store.thingRows thing).Pairwise fun r s => ¬(r.id? = some id ∧ s.id? = some id) := by
  refine h.key.imp fun hrs hboth => ?_
  exact hrs (.string id) (Json.isSame_string_iff.2 hboth.1) (Json.isSame_string_iff.2 hboth.2)

/-! ### Rows of plans -/

variable {schema : Schema} {metadata : Bool} {query : Query} {plan : Plan}

theorem mem_thingRows_of_mem_pointer {ids : List String} {row : Row}
    (h : row ∈ store.sourceRows (.pointer thing.variants ids)) :
    row ∈ store.thingRows thing ∧ ∃ id ∈ ids, row.id? = some id := by
  unfold sourceRows at h
  obtain ⟨table, htable, hrow⟩ := List.mem_flatMap.1 h
  obtain ⟨id, hid, hget⟩ := List.mem_filterMap.1 hrow
  obtain ⟨hscan, rfl, hkey⟩ := get?_eq_some hget
  exact ⟨mem_thingRows_iff.2 ⟨htable, hscan⟩, id, hid, hkey⟩

/-- Where the rows of a plan come from depends on the keys that its query asks for. -/
theorem source_eq_of_build (hbuild : Plan.build schema metadata query = .ok plan)
    (hthing : schema.thing? query.thing = some thing) :
    plan.source = match query.options.id with
      | some keys => .pointer thing.variants keys.ids
      | none => .scan thing.variants := by
  obtain ⟨found, columns, level, hfound, _, hlevel, rfl⟩ := Plan.build_eq_ok hbuild
  cases hthing.symm.trans hfound
  obtain ⟨_, _, _, hids⟩ := Level.build_eq_ok hlevel
  dsimp only
  rw [hids]
  cases query.options.id <;> rfl

/-- The rows of a plan are records of the thing, with the single key if there is one. -/
theorem mem_thingRows_of_mem_planRows (hbuild : Plan.build schema metadata query = .ok plan)
    (hthing : schema.thing? query.thing = some thing) {row : Row} (h : row ∈ store.planRows plan) :
    row ∈ store.thingRows thing ∧ (∀ id, query.options.id = some (.one id) → row.id? = some id) ∧
      ∀ f, plan.filter = some f → store.satisfies f row.record = true := by
  obtain ⟨hrow, hfilter⟩ := mem_retain_iff.1 h
  rw [source_eq_of_build hbuild hthing] at hrow
  cases hkeys : query.options.id with
  | none =>
    rw [hkeys] at hrow
    exact ⟨hrow, by simp, hfilter⟩
  | some keys =>
    rw [hkeys] at hrow
    obtain ⟨hmem, id, hid, hkey⟩ := mem_thingRows_of_mem_pointer hrow
    refine ⟨hmem, ?_, hfilter⟩
    rintro single ⟨⟩
    rw [hkey, List.mem_singleton.1 hid]

/-- Any two rows of a plan that identifies its record are the same. -/
theorem eq_of_mem_planRows_of_identifies (hbuild : Plan.build schema metadata query = .ok plan)
    (hthing : schema.thing? query.thing = some thing) (hstore : store.UniqueIn thing)
    (h : plan.Identifies thing query) : ∀ r ∈ store.planRows plan, ∀ s ∈ store.planRows plan, r = s := by
  intro r hr s hs
  obtain ⟨hrmem, hrkey, hrfilter⟩ := mem_thingRows_of_mem_planRows hbuild hthing hr
  obtain ⟨hsmem, hskey, hsfilter⟩ := mem_thingRows_of_mem_planRows hbuild hthing hs
  rcases h with hsingle | ⟨f, hf, c, hc, hidentifies⟩
  · obtain ⟨id, hid⟩ := Option.isSome_iff_exists.1 hsingle
    obtain ⟨keys, hkeys, hone⟩ := Option.bind_eq_some_iff.1 hid
    cases keys with
    | many ids => cases hone
    | one key =>
      exact eq_of_pairwise_not_both (hstore.pairwise_id? key) hrmem hsmem (hrkey key hkeys) (hskey key hkeys)
  · have hparts : ∀ row : Row, store.satisfies f row.record = true → store.satisfies c row.record = true :=
      fun row hrow => (satisfies_iff_conjuncts store row.record).1 hrow c hc
    exact eq_of_pairwise_not_both (hstore.pairwise_of_identifies hidentifies) hrmem hsmem
      (hparts r (hrfilter f hf)) (hparts s (hsfilter f hf))

/-- A plan that identifies its record keeps no more than one row, unless its query lists a key twice. -/
theorem length_planRows_le_one_of_identifies (hbuild : Plan.build schema metadata query = .ok plan)
    (hthing : schema.thing? query.thing = some thing) (htables : thing.variants.Nodup)
    (hstore : store.UniqueIn thing) (h : plan.Identifies thing query)
    (hkeys : ∀ keys, query.options.id = some keys → keys.ids.Nodup) : (store.planRows plan).length ≤ 1 := by
  have heq := eq_of_mem_planRows_of_identifies hbuild hthing hstore h
  have hsource := source_eq_of_build hbuild hthing
  cases hselector : query.options.id with
  | some keys =>
    rw [hselector] at hsource
    have hnodup : (store.planRows plan).Nodup := by
      unfold planRows
      rw [hsource]
      exact Nodup.retain (nodup_pointer htables (hkeys keys hselector))
    exact length_le_one_of_pairwise hnodup fun a ha b hb hne => hne (heq a ha b hb)
  | none =>
    -- the rows of a scan are counted by their places, so two records that are equal count twice
    rw [hselector] at hsource
    obtain ⟨f, hf, c, hc, hidentifies⟩ := h.resolve_left (by simp [hselector])
    have hrows : store.planRows plan =
        (store.thingRows thing).filter fun row => store.satisfies f row.record := by
      unfold planRows
      rw [hsource, hf]
      rfl
    rw [hrows]
    refine length_le_one_of_pairwise ((hstore.pairwise_of_identifies hidentifies).filter _) ?_
    intro r hr s hs hboth
    have hrf := (satisfies_iff_conjuncts store r.record).1 (List.mem_filter.1 hr).2 c hc
    have hsf := (satisfies_iff_conjuncts store s.record).1 (List.mem_filter.1 hs).2 c hc
    exact hboth ⟨hrf, hsf⟩

/-! ### Records that share null -/

theorem scan_insert_self (store : Store) (table : String) (record : Json) :
    (store.insert table record).scan table = store.scan table ++ [⟨table, record⟩] := by
  unfold scan insert
  rw [NameMap.get?_insert_self]
  simp

theorem scan_insert_of_ne (store : Store) {table other : String} (record : Json) (h : other ≠ table) :
    (store.insert table record).scan other = store.scan other := by
  unfold scan insert
  rw [NameMap.get?_insert_of_ne _ _ h]

/-- A record of a table with a key and null in the given columns. -/
def nullRow (table key : String) (columns : List String) : Row :=
  ⟨table, .object ((idColumn, .string key) :: columns.map fun column => (column, .null))⟩

/-- A store with two records of a table that hold null in the given columns. -/
def nullStore (table : String) (columns : List String) : Store :=
  (empty.insert table (nullRow table "a" columns).record).insert table (nullRow table "b" columns).record

theorem thingRows_nullStore (htables : thing.variants.Nodup) (columns : List String) :
    (nullStore thing.name columns).thingRows thing =
      [nullRow thing.name "a" columns, nullRow thing.name "b" columns] := by
  have hself : (nullStore thing.name columns).scan thing.name =
      [nullRow thing.name "a" columns, nullRow thing.name "b" columns] := by
    unfold nullStore
    rw [scan_insert_self, scan_insert_self]
    rfl
  have hother : ∀ table ∈ thing.subTypes, (nullStore thing.name columns).scan table = [] := by
    intro table htable
    have hne : table ≠ thing.name := by
      rintro rfl
      exact (List.nodup_cons.1 htables).1 htable
    unfold nullStore
    rw [scan_insert_of_ne _ _ hne, scan_insert_of_ne _ _ hne]
    rfl
  unfold thingRows sourceRows Thing.variants
  rw [List.flatMap_cons, hself, List.flatMap_eq_nil_iff.2 hother, List.append_nil]

theorem get?_nullRow_of_ne {table key column : String} {columns : List String} (h : column ≠ idColumn) :
    (nullRow table key columns).record.get? column = if column ∈ columns then some .null else none := by
  have hkey : (column == idColumn) = false := by simpa using h
  change ((idColumn, Json.string key) :: columns.map fun column => (column, Json.null)).lookup column = _
  rw [List.lookup_cons, hkey]
  dsimp only
  induction columns with
  | nil => rfl
  | cons first rest ih =>
    rw [List.map_cons, List.lookup_cons]
    by_cases hfirst : column = first
    · simp [hfirst]
    · have hbeq : (column == first) = false := by simpa using hfirst
      rw [hbeq]
      simpa [hfirst] using ih

theorem eq_of_holds_id_nullRow {table key : String} {columns : List String} {v : Json}
    (h : (nullRow table key columns).Holds idColumn v) : v = .string key := by
  have hsame : Json.same (.string key) v = true := by
    have hget : (nullRow table key columns).record.get? idColumn = some (.string key) := rfl
    rwa [Row.Holds, hget] at h
  exact Json.eq_of_same_string hsame

theorem isNull_of_holds_nullRow {table key column : String} {columns : List String} {v : Json}
    (hcolumn : column ≠ idColumn) (h : (nullRow table key columns).Holds column v) : v.isNull = true := by
  unfold Row.Holds at h
  rw [get?_nullRow_of_ne hcolumn] at h
  split at h
  · have hsame : Json.same .null v = true := h
    cases v <;> simp [Json.same] at hsame
    rfl
  · cases h

/-- Two records that hold null in the same columns do not share a value that has to be unique. -/
theorem uniqueIn_nullStore (htables : thing.variants.Nodup) (columns : List String) :
    (nullStore thing.name columns).UniqueIn thing := by
  have hkeys : ∀ v, (nullRow thing.name "a" columns).Holds idColumn v →
      ¬(nullRow thing.name "b" columns).Holds idColumn v := by
    intro v ha hb
    have hab : Json.string "a" = .string "b" := (eq_of_holds_id_nullRow ha).symm.trans (eq_of_holds_id_nullRow hb)
    simp at hab
  constructor
  · rw [thingRows_nullStore htables]
    simpa using hkeys
  · intro field _ _
    rw [thingRows_nullStore htables]
    simp only [List.pairwise_pair]
    intro v hnull ha hb
    by_cases hcolumn : field.name = idColumn
    · rw [hcolumn] at ha hb
      exact hkeys v ha hb
    · rw [isNull_of_holds_nullRow hcolumn ha] at hnull
      cases hnull

/-- A part of a filter that fixes a unique column, but identifies no record, fixes it to null. -/
theorem fixed?_of_not_identifies {c : Filter} (hpins : c.pins thing = true) (h : ¬c.Identifies thing) :
    ∃ column, c.fixed? = some (column, .null) ∧ thing.isUnique column = true ∧ column ≠ idColumn := by
  obtain ⟨column, v, hfixed, hunique⟩ := Filter.pins_iff.1 hpins
  by_cases hkey : column = idColumn
  · exact absurd ⟨column, v, hfixed, hunique, .inl hkey⟩ h
  · cases v with
    | null => exact ⟨column, hfixed, hunique, hkey⟩
    | _ => exact absurd ⟨column, _, hfixed, hunique, .inr rfl⟩ h

/-- Two records may satisfy all parts of a filter that fix columns to null. -/
theorem exists_ne_of_fixed?_null (htables : thing.variants.Nodup) (parts : List Filter)
    (h : ∀ c ∈ parts, ∃ column, c.fixed? = some (column, .null) ∧ column ≠ idColumn) :
    ∃ store : Store, store.UniqueIn thing ∧ ∃ r ∈ store.thingRows thing, ∃ s ∈ store.thingRows thing, r ≠ s ∧
      ∀ c ∈ parts, store.satisfies c r.record = true ∧ store.satisfies c s.record = true := by
  let columns := parts.filterMap fun c => c.fixed?.map (·.1)
  have hrows := thingRows_nullStore htables columns
  have hholds : ∀ c ∈ parts, ∀ key,
      (nullStore thing.name columns).satisfies c (nullRow thing.name key columns).record = true := by
    intro c hc key
    obtain ⟨column, hfixed, hne⟩ := h c hc
    have hmem : column ∈ columns := List.mem_filterMap.2 ⟨c, hc, by rw [hfixed]; rfl⟩
    rw [Filter.satisfies_of_fixed? hfixed, Row.Holds, get?_nullRow_of_ne hne, if_pos hmem]
    rfl
  refine ⟨nullStore thing.name columns, uniqueIn_nullStore htables columns, nullRow thing.name "a" columns, ?_,
    nullRow thing.name "b" columns, ?_, ?_, fun c hc => ⟨hholds c hc "a", hholds c hc "b"⟩⟩
  · simp [hrows]
  · simp [hrows]
  · simp [nullRow]

/-! ### One row and no other -/

/-- A plan for one row keeps at most one record of a store with unique keys and values if it identifies its record.
Otherwise a part of its filter fixes a unique column to null, and two records may satisfy all parts that fix such
columns. -/
theorem planRows_of_cardinality_one (hbuild : Plan.build schema metadata query = .ok plan)
    (hthing : schema.thing? query.thing = some thing) (htables : thing.variants.Nodup)
    (hone : plan.cardinality = .one) :
    (plan.Identifies thing query → ∀ store : Store, store.UniqueIn thing →
        (∀ r ∈ store.planRows plan, ∀ s ∈ store.planRows plan, r = s) ∧
          ((∀ keys, query.options.id = some keys → keys.ids.Nodup) → (store.planRows plan).length ≤ 1)) ∧
      (¬plan.Identifies thing query → ∃ f, plan.filter = some f ∧
        (∃ c ∈ f.conjuncts, ∃ column, c.fixed? = some (column, .null) ∧ thing.isUnique column = true) ∧
        ∃ store : Store, store.UniqueIn thing ∧ ∃ r ∈ store.thingRows thing, ∃ s ∈ store.thingRows thing, r ≠ s ∧
          ∀ c ∈ f.conjuncts, c.pins thing = true →
            store.satisfies c r.record = true ∧ store.satisfies c s.record = true) := by
  constructor
  · intro hidentifies store hstore
    exact ⟨eq_of_mem_planRows_of_identifies hbuild hthing hstore hidentifies,
      length_planRows_le_one_of_identifies hbuild hthing htables hstore hidentifies⟩
  · intro hnot
    unfold Plan.Identifies at hnot
    rw [not_or] at hnot
    obtain ⟨f, hf, c, hc, hpins⟩ :=
      ((Plan.cardinality_eq_one_iff hbuild hthing).1 hone).resolve_left hnot.1
    have hnull : ∀ c ∈ f.conjuncts, c.pins thing = true →
        ∃ column, c.fixed? = some (column, .null) ∧ thing.isUnique column = true ∧ column ≠ idColumn :=
      fun c hc hpins => fixed?_of_not_identifies hpins fun h => hnot.2 ⟨f, hf, c, hc, h⟩
    obtain ⟨column, hfixed, hunique, _⟩ := hnull c hc hpins
    obtain ⟨store, hstore, r, hr, s, hs, hne, hparts⟩ :=
      exists_ne_of_fixed?_null htables (f.conjuncts.filter (Filter.pins thing)) fun c hc => by
        obtain ⟨hmem, hpins⟩ := List.mem_filter.1 hc
        obtain ⟨column, hfixed, _, hne⟩ := hnull c hmem hpins
        exact ⟨column, hfixed, hne⟩
    refine ⟨f, hf, ⟨c, hc, column, hfixed, hunique⟩, store, hstore, r, hr, s, hs, hne, ?_⟩
    exact fun c hc hpins => hparts c (List.mem_filter.2 ⟨hc, hpins⟩)


/-! ### Two accounts of one name -/

/-- Two accounts with the same name and the given addresses. -/
def adaRows (first second : Json) : List Row :=
  [⟨"Account", .object [("id", .string "a"), ("email", first), ("name", .string "Ada")]⟩,
   ⟨"Account", .object [("id", .string "b"), ("email", second), ("name", .string "Ada")]⟩]

/-- The store of two accounts with the same name. -/
def adaStore (first second : Json) : Store :=
  (adaRows first second).foldl (fun store row => store.insert row.table row.record) empty

theorem thingRows_adaStore (first second : Json) :
    (adaStore first second).thingRows accountThing = adaRows first second := by
  change (adaStore first second).scan "Account" ++ [] = _
  unfold adaStore adaRows
  rw [List.append_nil, List.foldl_cons, List.foldl_cons, List.foldl_nil, scan_insert_self, scan_insert_self]
  rfl

theorem uniqueIn_adaStore {first second : Json}
    (h : ∀ v, v.isNull = false → Json.same first v = true → ¬Json.same second v = true) :
    (adaStore first second).UniqueIn accountThing := by
  have hkeys : ∀ v, Json.same (.string "a") v = true → ¬Json.same (.string "b") v = true := by
    intro v ha hb
    have hab := (Json.eq_of_same_string ha).symm.trans (Json.eq_of_same_string hb)
    simp at hab
  constructor
  · rw [thingRows_adaStore]
    exact List.pairwise_pair.2 hkeys
  · intro field hfield hunique
    rw [thingRows_adaStore]
    refine List.pairwise_pair.2 fun v hnull => ?_
    simp only [accountThing, List.mem_cons, List.not_mem_nil, or_false] at hfield
    rcases hfield with rfl | rfl | rfl | rfl | rfl
    · exact hkeys v
    · exact h v hnull
    · cases hunique
    · cases hunique
    · cases hunique

theorem planRows_of_cardinality_one_accounts :
    Plan.build accountSchema false (addressQuery (.string "ada@example.org")) =
        .ok (addressPlan (.scalar .eq "email" (.string "ada@example.org")) .one) ∧
      (adaStore (.string "ada@example.org") (.string "ada@example.com")).UniqueIn accountThing ∧
      ((adaStore (.string "ada@example.org") (.string "ada@example.com")).planRows
        (addressPlan (.scalar .eq "email" (.string "ada@example.org")) .one)).length ≤ 1 := by
  have hbuild : Plan.build accountSchema false (addressQuery (.string "ada@example.org")) =
      .ok (addressPlan (.scalar .eq "email" (.string "ada@example.org")) .one) := rfl
  have hthing : accountSchema.thing? "Account" = some accountThing := rfl
  have hidentifies : (addressPlan (.scalar .eq "email" (.string "ada@example.org")) .one).Identifies accountThing
      (addressQuery (.string "ada@example.org")) :=
    .inr ⟨_, rfl, .scalar .eq "email" (.string "ada@example.org"), List.mem_cons_self, "email",
      .string "ada@example.org", rfl, by decide, .inr rfl⟩
  have hunique : (adaStore (.string "ada@example.org") (.string "ada@example.com")).UniqueIn accountThing := by
    refine uniqueIn_adaStore fun v _ horg hcom => ?_
    have heq := (Json.eq_of_same_string horg).symm.trans (Json.eq_of_same_string hcom)
    simp at heq
  refine ⟨hbuild, hunique, ?_⟩
  exact ((planRows_of_cardinality_one hbuild hthing (by decide) rfl).1 hidentifies _ hunique).2 nofun

/-- Two accounts without an address satisfy a filter that lists null as the only address, in a plan for one row. -/
theorem exists_ne_planRows_accounts :
    Plan.build accountSchema false (addressQuery (.array [.null])) =
        .ok (addressPlan (.list .isIn "email" [.null]) .one) ∧
      accountSchema.thing? "Account" = some accountThing ∧ accountThing.variants.Nodup ∧
      (addressPlan (.list .isIn "email" [.null]) .one).cardinality = .one ∧
      (adaStore .null .null).UniqueIn accountThing ∧
      ∃ r ∈ (adaStore .null .null).planRows (addressPlan (.list .isIn "email" [.null]) .one),
        ∃ s ∈ (adaStore .null .null).planRows (addressPlan (.list .isIn "email" [.null]) .one), r ≠ s := by
  have hrows : (adaStore .null .null).planRows (addressPlan (.list .isIn "email" [.null]) .one) =
      adaRows .null .null := rfl
  refine ⟨rfl, rfl, by decide, rfl, uniqueIn_adaStore fun v hnull hv => ?_, ?_⟩
  · cases v <;> simp_all [Json.same, Json.isNull]
  · rw [hrows]
    refine ⟨_, List.mem_cons_self, _, List.mem_cons_of_mem _ List.mem_cons_self, ?_⟩
    simp

end Store

end ThingQuery
