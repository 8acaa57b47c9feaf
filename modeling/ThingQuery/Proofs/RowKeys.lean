import Mathlib.Data.List.Forall2
import ThingQuery.Proofs.Answered
import ThingQuery.Proofs.Cardinality

/-!
# Keys of rows

Planning and shaping walk through the selection of a query separately: one decides under which keys the columns of a row
are returned, the other looks the selected fields up in it.  They agree on the keys, at every level of the selection and
in its order, and so does a better plan (`Plan.keysAgree_at?`).  A level is again a query, for the thing at the other
end of the field that nests it (`Query.at?`).
-/

namespace ThingQuery

/-! ### Levels of a selection -/

/-- The selected fields of a thing, listed or not. -/
def Selection.selectors (thing : Thing) : Selection → List Selector
  | .all => thing.fields.map fun field => .field field.name
  | .only selectors => selectors

namespace Selector

/-- Whether the selected field is constant or computed. -/
def isVirtual (thing : Thing) (selector : Selector) : Bool :=
  (thing.field? selector.fieldPath).any (·.kind.isVirtual)

/-- The query that a selected field of a thing nests. -/
def inner? (thing : Thing) : Selector → Option Query
  | .field _ => none
  | .nested path _ options selection =>
    ((thing.field? path).bind (·.kind.opposite?)).map fun opposite => ⟨opposite.thing, options, selection⟩

end Selector

namespace Query

/-- The selected fields that are not excluded. -/
def selectors (thing : Thing) (query : Query) : List Selector :=
  (query.selection.selectors thing).filter fun selector => !query.options.excluded.contains selector.fieldPath

/-- The selected fields that are neither excluded nor virtual. -/
def stored (thing : Thing) (query : Query) : List Selector :=
  (query.selectors thing).filter fun selector => !selector.isVirtual thing

/-- The level of a selection at a path, where every step is the place of a nested field among the stored ones. -/
def at? (schema : Schema) : List Nat → Query → Option Query
  | [], query => some query
  | place :: path, query =>
    (schema.thing? query.thing).bind fun thing =>
      ((query.stored thing)[place]?.bind (Selector.inner? thing)).bind (at? schema path)

end Query

namespace Column

/-- Whether the column is the key or the table of the record. -/
def isMetadata : Column → Bool
  | .metadata .. => true
  | _ => false

/-- The columns that a column nests. -/
def inner? : Column → Option (List Column)
  | .nested _ columns => some columns
  | _ => none

/-- The columns of fields. -/
def fieldColumns (columns : List Column) : List Column := columns.filter (!·.isMetadata)

/-- The columns at a path, where every step is the place of a nested column among the columns of fields. -/
def at? : List Nat → List Column → Option (List Column)
  | [], columns => some columns
  | place :: path, columns => ((fieldColumns columns)[place]?.bind inner?).bind (at? path)

end Column

/-! ### What a response reads -/

/-- A selected field is read from a row under a key. -/
structure Selector.Reads (schema : Schema) (thing : Thing) (selector : Selector) (key : String) : Prop where
  /-- Nothing else of the row matters. -/
  only : ∀ (style : ResponseStyle) (row row' : RawRow), row.lookup key = row'.lookup key →
    selector.response style schema thing row = selector.response style schema thing row'
  /-- A text under the key is returned as it is. -/
  text : ∀ (style : ResponseStyle) (row : RawRow) (s : String), row.lookup key = some (.string s) →
    selector.response style schema thing row = .ok [(key, .string s)]
  /-- What is under the key of a nested field is shaped like the result of the nested query. -/
  nested : ∀ inner, selector.inner? thing = some inner →
    ∀ (style : ResponseStyle) (row : RawRow) (raw : Json), row.lookup key = some raw → raw.isNull = false →
      selector.response style schema thing row =
        (inner.assemble style schema raw).map fun v => style.member key (some v)

/-- There is only one key under which a selected field is read. -/
theorem Selector.Reads.unique {schema : Schema} {thing : Thing} {selector : Selector} {key key' : String}
    (h : selector.Reads schema thing key) (h' : selector.Reads schema thing key') : key = key' := by
  by_contra hne
  have hlookup : ([(key, Json.string "")] ++ [(key', Json.string "")]).lookup key' = some (.string "") := by
    have hbeq : (key' == key) = false := by simpa using Ne.symm hne
    simp [List.lookup_cons, hbeq]
  have hsame := (h.text {} _ "" List.lookup_cons_self).symm.trans (h'.text {} _ "" hlookup)
  simp only [Except.ok.injEq, List.cons.injEq, Prod.mk.injEq] at hsame
  exact hne hsame.1.1

/-- The members of selected fields of a row, field by field. -/
def Selector.parts (style : ResponseStyle) (schema : Schema) (thing : Thing) (row : RawRow)
    (selectors : List Selector) : Except ResponseError (List (List (String × Json))) :=
  selectors.mapM fun selector => selector.response style schema thing row

section Responses

variable {schema : Schema} {thing : Thing} (style : ResponseStyle)

theorem Selector.listResponse_eq_parts (excluded : List String) (row : RawRow) (selectors : List Selector) :
    Selector.listResponse style schema thing excluded selectors row =
      (Selector.parts style schema thing row
        (selectors.filter fun selector => !excluded.contains selector.fieldPath)).map List.flatten := by
  induction selectors with
  | nil =>
    rw [Selector.listResponse]
    rfl
  | cons selector rest ih =>
    rw [Selector.listResponse]
    by_cases hexcluded : excluded.contains selector.fieldPath = true
    · rw [if_pos hexcluded, List.filter_cons_of_neg (by rw [hexcluded]; decide)]
      exact ih
    · rw [if_neg hexcluded, List.filter_cons_of_pos (by simpa using hexcluded), Selector.parts, List.mapM_cons, ih]
      cases selector.response style schema thing row with
      | error e => rfl
      | ok member =>
        change _ = ((Selector.parts style schema thing row _) >>= fun parts => pure (member :: parts)).map List.flatten
        cases Selector.parts style schema thing row _ <;> rfl

/-- The members of a response are those of the selected fields that are not excluded, in their order. -/
theorem Query.response_eq_parts (query : Query) (row : RawRow) :
    query.selection.response style schema thing query.options.excluded row =
      (Selector.parts style schema thing row (query.selectors thing)).map List.flatten := by
  unfold Query.selectors
  cases query.selection with
  | all =>
    have hfield : ∀ name, (Selector.field name).response style schema thing row =
        thing.responseMember style row name := fun name => by rw [Selector.response]
    rw [Selection.response, Selection.selectors, Selector.parts, List.filter_map, List.mapM_map, List.filter_map,
      List.mapM_map]
    simp only [Function.comp_def, hfield]
    rfl
  | only selectors =>
    rw [Selection.response, Selection.selectors]
    exact Selector.listResponse_eq_parts style _ row selectors

/-- The response to a query is shaped row by row from the members of its selected fields. -/
theorem Query.assemble_eq {query : Query} (hthing : schema.thing? query.thing = some thing) (raw : Json) :
    query.assemble style schema raw =
      style.shapeRows (fun row => (Selector.parts style schema thing row (query.selectors thing)).map
        fun parts => style.objectOf schema thing query.options row parts.flatten) raw := by
  have hrow : ∀ row, (do
        let members ← query.selection.response style schema thing query.options.excluded row
        pure (style.objectOf schema thing query.options row members)) =
      (Selector.parts style schema thing row (query.selectors thing)).map
        fun parts => style.objectOf schema thing query.options row parts.flatten := by
    intro row
    rw [Query.response_eq_parts]
    cases Selector.parts style schema thing row (query.selectors thing) <;> rfl
  unfold Query.assemble
  rw [Schema.responseThing_of_thing? hthing]
  exact congrArg (style.shapeRows · raw) (funext hrow)

end Responses

/-! ### What a plan returns -/

section Columns

variable {schema : Schema} {metadata : Bool} {thing : Thing}

theorem Field.isNone_column? (thing : Thing) (field : Field) :
    (field.column? thing).isNone = field.kind.isVirtual := by
  unfold Field.column?
  split
  case h_3 h => split <;> simp [h, FieldKind.isVirtual]
  all_goals
    rename_i h
    simp [h, FieldKind.isVirtual]

/-- The column of a stored field has the field's name as its key and nests no others. -/
theorem Field.column?_eq_some {field : Field} {column : Column} (h : field.column? thing = some column) :
    column.outputKey = field.name ∧ column.isMetadata = false ∧ column.inner? = none := by
  unfold Field.column? at h
  split at h
  · cases h
  · cases h
  · split at h
    · cases h
      by_cases hname : field.name = idColumn
      · simp [Column.outputKey, Column.isMetadata, Column.inner?, hname]
      · simp [Column.outputKey, Column.isMetadata, Column.inner?, hname]
    · cases h
      exact ⟨rfl, rfl, rfl⟩
  all_goals
    cases h
    exact ⟨rfl, rfl, rfl⟩

theorem FieldKind.isVirtual_of_opposite? {kind : FieldKind} {opposite : Opposite}
    (h : kind.opposite? = some opposite) : kind.isVirtual = false := by
  cases kind with
  | constant v => cases h
  | computed compute => cases h
  | _ => rfl

/-- What is known of the column of a nested field. -/
theorem Selector.column?_nested {path : String} {label : Option String} {options : Options} {selection : Selection}
    {column : Option Column} (h : (Selector.nested path label options selection).column? schema metadata thing =
      .ok column) :
    ∃ field opposite target columns scope, thing.field? path = some field ∧
      field.kind.opposite? = some opposite ∧ schema.thing? opposite.thing = some target ∧
      selection.columns schema metadata target options.excluded = .ok columns ∧
      column = some (.nested scope columns) ∧ scope.outputKey = label.getD path := by
  rw [Selector.column?] at h
  obtain ⟨field, hfield, h⟩ := ok_of_bind h
  split at h
  · rename_i cardinality opposite _ hopposite
    obtain ⟨target, htarget, h⟩ := ok_of_bind h
    obtain ⟨columns, hcolumns, h⟩ := ok_of_bind h
    obtain ⟨level, _, h⟩ := ok_of_bind h
    cases h
    exact ⟨field, opposite, target, columns, _, field?_of_getField hfield, hopposite, thing?_of_targetThing htarget,
      hcolumns, rfl, rfl⟩
  · cases h

/-- A selected field has no column exactly when it is virtual. -/
theorem Selector.isNone_of_column? {selector : Selector} {column : Option Column}
    (h : selector.column? schema metadata thing = .ok column) : column.isNone = selector.isVirtual thing := by
  cases selector with
  | field name =>
    rw [Selector.column?] at h
    obtain ⟨field, hfield, h⟩ := ok_of_bind h
    cases h
    rw [Field.isNone_column?, Selector.isVirtual, Selector.fieldPath, field?_of_getField hfield]
    rfl
  | nested path label options selection =>
    obtain ⟨field, opposite, _, _, _, hfield, hopposite, _, _, rfl, _⟩ := Selector.column?_nested h
    rw [Selector.isVirtual, Selector.fieldPath, hfield]
    exact (FieldKind.isVirtual_of_opposite? hopposite).symm

/-- The column of a selected field has the key of the field in the response. -/
theorem Selector.outputKey_of_column? {selector : Selector} {column : Column}
    (h : selector.column? schema metadata thing = .ok (some column)) :
    column.outputKey = selector.outputKey ∧ column.isMetadata = false := by
  cases selector with
  | field name =>
    rw [Selector.column?] at h
    obtain ⟨field, hfield, h⟩ := ok_of_bind h
    obtain ⟨hkey, hmetadata, _⟩ := Field.column?_eq_some (Except.ok.inj h)
    exact ⟨hkey.trans (Thing.mem_of_field? (field?_of_getField hfield)).2, hmetadata⟩
  | nested path label options selection =>
    obtain ⟨_, _, _, _, _, _, _, _, _, hcolumn, hkey⟩ := Selector.column?_nested h
    cases hcolumn
    exact ⟨hkey, rfl⟩

/-- The columns of listed fields are those of the stored ones among them, in their order. -/
theorem Selector.forall₂_of_listColumns {excluded : List String} {selectors : List Selector} {columns : List Column}
    (h : Selector.listColumns schema metadata thing excluded selectors = .ok columns) :
    List.Forall₂ (fun selector column => selector.column? schema metadata thing = .ok (some column))
      ((selectors.filter fun selector => !excluded.contains selector.fieldPath).filter
        fun selector => !selector.isVirtual thing) columns := by
  induction selectors generalizing columns with
  | nil =>
    rw [Selector.listColumns] at h
    cases h
    exact .nil
  | cons selector rest ih =>
    rw [Selector.listColumns] at h
    by_cases hexcluded : excluded.contains selector.fieldPath = true
    · rw [if_pos hexcluded] at h
      rw [List.filter_cons_of_neg (by rw [hexcluded]; decide)]
      exact ih h
    · rw [if_neg hexcluded] at h
      obtain ⟨column, hcolumn, h⟩ := ok_of_bind h
      obtain ⟨others, hothers, h⟩ := ok_of_bind h
      cases h
      rw [List.filter_cons_of_pos (by simpa using hexcluded)]
      have hvirtual := Selector.isNone_of_column? hcolumn
      cases column with
      | none =>
        rw [List.filter_cons_of_neg (by rw [← hvirtual]; decide)]
        exact ih hothers
      | some column =>
        rw [List.filter_cons_of_pos (by rw [← hvirtual]; rfl)]
        exact .cons hcolumn (ih hothers)

theorem Selector.listColumns_map_field (excluded : List String) {fields : List Field}
    (hfields : ∀ field ∈ fields, thing.field? field.name = some field) :
    Selector.listColumns schema metadata thing excluded (fields.map fun field => .field field.name) =
      .ok ((fields.filter fun field => !excluded.contains field.name).filterMap (·.column? thing)) := by
  induction fields with
  | nil =>
    rw [List.map_nil, Selector.listColumns]
    rfl
  | cons field rest ih =>
    rw [List.map_cons, Selector.listColumns, ih fun other hother => hfields other (List.mem_cons_of_mem _ hother)]
    by_cases hexcluded : excluded.contains field.name = true
    · rw [Selector.fieldPath, if_pos hexcluded, List.filter_cons_of_neg (by rw [hexcluded]; decide)]
    · have hget : thing.getField field.name = .ok field := by
        unfold Thing.getField
        rw [hfields field List.mem_cons_self]
      rw [Selector.fieldPath, if_neg hexcluded, List.filter_cons_of_pos (by simpa using hexcluded), Selector.column?,
        hget, List.filterMap_cons]
      change Except.ok ((field.column? thing).toList ++ _) = _
      cases field.column? thing <;> rfl

/-- The columns of a selection whose fields have distinct names are those of its stored fields, after the metadata. -/
theorem Selection.forall₂_of_columns (hnames : (thing.fields.map (·.name)).Nodup) {selection : Selection}
    {excluded : List String} {columns : List Column}
    (h : selection.columns schema metadata thing excluded = .ok columns) :
    ∃ own, columns = metadataColumns metadata ++ own ∧ (columns.map (·.outputKey)).Nodup ∧
      List.Forall₂ (fun selector column => selector.column? schema metadata thing = .ok (some column))
        (((selection.selectors thing).filter fun selector => !excluded.contains selector.fieldPath).filter
          fun selector => !selector.isVirtual thing) own := by
  cases selection with
  | all =>
    rw [Selection.columns] at h
    obtain ⟨_, _, h⟩ := ok_of_bind h
    obtain ⟨hcolumns, hnodup⟩ := distinctColumns_eq_ok h
    refine ⟨_, hcolumns, hnodup, Selector.forall₂_of_listColumns ?_⟩
    exact Selector.listColumns_map_field excluded fun field hfield => Thing.field?_of_mem hnames hfield
  | only selectors =>
    rw [Selection.columns] at h
    obtain ⟨_, _, h⟩ := ok_of_bind h
    obtain ⟨own, hown, h⟩ := ok_of_bind h
    obtain ⟨hcolumns, hnodup⟩ := distinctColumns_eq_ok h
    exact ⟨own, hcolumns, hnodup, Selector.forall₂_of_listColumns hown⟩

end Columns

/-! ### Both agree -/

section Reading

variable {schema : Schema} {metadata : Bool} {thing : Thing} (style : ResponseStyle)

theorem Field.valueIn_congr {field : Field} (hvirtual : field.kind.isVirtual = false) {row row' : RawRow} {key : String}
    (h : row.lookup key = row'.lookup key) : field.valueIn row key = field.valueIn row' key := by
  unfold Field.valueIn
  rw [h]
  split
  · simp_all [FieldKind.isVirtual]
  · simp_all [FieldKind.isVirtual]
  all_goals rfl

theorem Field.valueIn_string {field : Field} (hvirtual : field.kind.isVirtual = false) {row : RawRow} {key s : String}
    (h : row.lookup key = some (.string s)) : field.valueIn row key = some (.string s) := by
  unfold Field.valueIn
  rw [h]
  split
  · simp_all [FieldKind.isVirtual]
  · simp_all [FieldKind.isVirtual]
  all_goals rfl

theorem ResponseStyle.member_string (key s : String) : style.member key (some (.string s)) = [(key, .string s)] := rfl

/-- A selected field that is not nested is answered by its value in the row. -/
theorem Selector.response_field {name : String} {field : Field} (hfield : thing.field? name = some field)
    (row : RawRow) :
    (Selector.field name).response style schema thing row = .ok (style.member name (field.valueIn row name)) := by
  rw [Selector.response, Thing.responseMember, Thing.responseField_of_field? hfield]
  rfl

/-- A nested field is answered by the response to the nested query. -/
theorem Selector.response_nested {path : String} {label : Option String} {options : Options} {selection : Selection}
    {field : Field} {opposite : Opposite} {target : Thing} (hfield : thing.field? path = some field)
    (hopposite : field.kind.opposite? = some opposite) (htarget : schema.thing? opposite.thing = some target)
    (row : RawRow) :
    (Selector.nested path label options selection).response style schema thing row =
      match (row.lookup (label.getD path)).filter fun v => !v.isNull with
      | none => .ok (style.member (label.getD path) none)
      | some raw => (Query.assemble style schema ⟨opposite.thing, options, selection⟩ raw).map
          fun v => style.member (label.getD path) (some v) := by
  have hassemble : ∀ raw, Query.assemble style schema ⟨opposite.thing, options, selection⟩ raw =
      style.shapeRows (fun inner => do
        let members ← Selection.response style schema target options.excluded selection inner
        pure (style.objectOf schema target options inner members)) raw := by
    intro raw
    unfold Query.assemble
    rw [Schema.responseThing_of_thing? htarget]
    rfl
  simp only [hassemble]
  rw [Selector.response, Thing.responseField_of_field? hfield]
  change (if field.kind.isVirtual then _ else _) = _
  rw [if_neg (by simp [FieldKind.isVirtual_of_opposite? hopposite]), hopposite]
  change (schema.responseThing opposite.thing >>= fun target => _) = _
  rw [Schema.responseThing_of_thing? htarget]
  change (match (row.lookup (label.getD path)).filter fun v => !v.isNull with | none => _ | some raw => _) = _
  split <;> rfl

theorem Selector.reads_field {name : String} {field : Field} (hfield : thing.field? name = some field)
    (hstored : field.kind.isVirtual = false) : (Selector.field name).Reads schema thing name := by
  constructor
  · intro style row row' hlookup
    rw [Selector.response_field style hfield, Selector.response_field style hfield,
      Field.valueIn_congr hstored hlookup]
  · intro style row s hlookup
    rw [Selector.response_field style hfield, Field.valueIn_string hstored hlookup, ResponseStyle.member_string]
  · intro inner hinner
    cases hinner

theorem Selector.reads_nested {path : String} {label : Option String} {options : Options} {selection : Selection}
    {field : Field} {opposite : Opposite} {target : Thing} (hfield : thing.field? path = some field)
    (hopposite : field.kind.opposite? = some opposite) (htarget : schema.thing? opposite.thing = some target) :
    (Selector.nested path label options selection).Reads schema thing (label.getD path) := by
  constructor
  · intro style row row' hlookup
    rw [Selector.response_nested style hfield hopposite htarget, hlookup,
      Selector.response_nested style hfield hopposite htarget]
  · intro style row s hlookup
    have hassemble : Query.assemble style schema ⟨opposite.thing, options, selection⟩ (.string s) =
        .ok (.string s) := by
      rw [Query.assemble_eq style htarget, ResponseStyle.shapeRows]
    rw [Selector.response_nested style hfield hopposite htarget, hlookup]
    change (Query.assemble style schema ⟨opposite.thing, options, selection⟩ (.string s)).map _ = _
    rw [hassemble]
    exact congrArg Except.ok (style.member_string _ s)
  · intro inner hinner style row raw hlookup hnull
    rw [Selector.inner?, hfield, Option.bind_some, hopposite, Option.map_some] at hinner
    cases hinner
    rw [Selector.response_nested style hfield hopposite htarget, hlookup, Option.filter_some_pos (by rw [hnull]; rfl)]

/-- A field with a column is read under the key of that column. -/
theorem Selector.reads_of_column? {selector : Selector} {column : Column}
    (h : selector.column? schema metadata thing = .ok (some column)) :
    selector.Reads schema thing column.outputKey := by
  rw [(Selector.outputKey_of_column? h).1]
  have hstored := Selector.isNone_of_column? h
  cases selector with
  | field name =>
    rw [Selector.column?] at h
    obtain ⟨field, hget, _⟩ := ok_of_bind h
    have hfield := field?_of_getField hget
    rw [Selector.isVirtual, Selector.fieldPath, hfield] at hstored
    exact Selector.reads_field hfield hstored.symm
  | nested path label options selection =>
    obtain ⟨_, _, _, _, _, hfield, hopposite, htarget, _, _, _⟩ := Selector.column?_nested h
    exact Selector.reads_nested hfield hopposite htarget

end Reading

/-! ### Level by level -/

theorem rel_getElem?_of_forall₂ {α β : Type} {R : α → β → Prop} {as : List α} {bs : List β}
    (h : List.Forall₂ R as bs) (i : Nat) : Option.Rel R as[i]? bs[i]? := by
  induction h generalizing i with
  | nil => exact .none
  | cons hab _ ih =>
    cases i with
    | zero => exact .some hab
    | succ i => exact ih i

theorem exists_of_mem_forall₂ {α β : Type} {R : α → β → Prop} {as : List α} {bs : List β} (h : List.Forall₂ R as bs)
    {b : β} (hb : b ∈ bs) : ∃ a ∈ as, R a b := by
  induction h with
  | nil => cases hb
  | @cons a _ _ _ hab _ ih =>
    rcases List.mem_cons.1 hb with rfl | hb
    · exact ⟨a, List.mem_cons_self, hab⟩
    · obtain ⟨a', ha', hR⟩ := ih hb
      exact ⟨a', List.mem_cons_of_mem _ ha', hR⟩

theorem rel_imp {α β : Type} {R S : α → β → Prop} {a : Option α} {b : Option β} (h : Option.Rel R a b)
    (hRS : ∀ x y, R x y → S x y) : Option.Rel S a b := by
  cases h with
  | none => exact .none
  | some hab => exact .some (hRS _ _ hab)

theorem rel_bind {α β γ δ : Type} {R : α → β → Prop} {S : γ → δ → Prop} {a : Option α} {b : Option β}
    {f : α → Option γ} {g : β → Option δ} (h : Option.Rel R a b) (hfg : ∀ x y, R x y → Option.Rel S (f x) (g y)) :
    Option.Rel S (a.bind f) (b.bind g) := by
  cases h with
  | none => exact .none
  | some hab => exact hfg _ _ hab

/-- The columns of a query, as planning finds them. -/
def Query.Planned (schema : Schema) (metadata : Bool) (query : Query) (columns : List Column) : Prop :=
  ∃ thing, schema.thing? query.thing = some thing ∧
    query.selection.columns schema metadata thing query.options.excluded = .ok columns

/-- The keys of the columns of fields. -/
def Column.fieldKeys (columns : List Column) : List String := (fieldColumns columns).map (·.outputKey)

/-- The keys of the columns of fields are, in their order, exactly those under which the response to a query reads its
stored fields. -/
structure Query.KeysAgree (schema : Schema) (thing : Thing) (query : Query) (columns : List Column) : Prop where
  found : schema.thing? query.thing = some thing
  /-- Each row of the response is shaped from the members of the selected fields. -/
  assembles : ∀ (style : ResponseStyle) (raw : Json), query.assemble style schema raw =
    style.shapeRows (fun row => (Selector.parts style schema thing row (query.selectors thing)).map
      fun parts => style.objectOf schema thing query.options row parts.flatten) raw
  reads : ∀ keys, List.Forall₂ (Selector.Reads schema thing) (query.stored thing) keys ↔
    keys = Column.fieldKeys columns

section Levels

variable {schema : Schema} {metadata : Bool} {query : Query} {columns : List Column}

theorem Column.fieldColumns_metadata_append (metadata : Bool) {own : List Column}
    (h : ∀ column ∈ own, column.isMetadata = false) : fieldColumns (metadataColumns metadata ++ own) = own := by
  have hmetadata : (metadataColumns metadata).filter (!·.isMetadata) = [] := by cases metadata <;> rfl
  rw [fieldColumns, List.filter_append, hmetadata, List.nil_append]
  exact List.filter_eq_self.2 fun column hcolumn => by rw [h column hcolumn]; rfl

/-- The columns of fields of a level are those of its stored fields, and no two columns have one key. -/
theorem Query.Planned.forall₂ (hdistinct : schema.DistinctFields) {thing : Thing}
    (hthing : schema.thing? query.thing = some thing) (h : query.Planned schema metadata columns) :
    columns = metadataColumns metadata ++ Column.fieldColumns columns ∧ (columns.map (·.outputKey)).Nodup ∧
      List.Forall₂ (fun selector column => selector.column? schema metadata thing = .ok (some column))
        (query.stored thing) (Column.fieldColumns columns) := by
  obtain ⟨found, hfound, hcolumns⟩ := h
  cases hthing.symm.trans hfound
  have hnames := hdistinct thing (Schema.mem_values_of_thing? hthing)
  obtain ⟨own, rfl, hnodup, hown⟩ := Selection.forall₂_of_columns hnames hcolumns
  have hfields : ∀ column ∈ own, column.isMetadata = false := by
    intro column hcolumn
    obtain ⟨selector, _, hselector⟩ := exists_of_mem_forall₂ hown hcolumn
    exact (Selector.outputKey_of_column? hselector).2
  rw [Column.fieldColumns_metadata_append metadata hfields]
  exact ⟨rfl, hnodup, hown⟩

theorem Query.Planned.keysAgree (hdistinct : schema.DistinctFields) {thing : Thing}
    (hthing : schema.thing? query.thing = some thing) (h : query.Planned schema metadata columns) :
    query.KeysAgree schema thing columns := by
  have hreads : List.Forall₂ (Selector.Reads schema thing) (query.stored thing) (Column.fieldKeys columns) := by
    refine List.forall₂_map_right_iff.2 ((h.forall₂ hdistinct hthing).2.2.imp fun selector column hcolumn => ?_)
    exact Selector.reads_of_column? hcolumn
  refine ⟨hthing, fun style raw => Query.assemble_eq style hthing raw, fun keys => ⟨fun hkeys => ?_, ?_⟩⟩
  · exact List.right_unique_forall₂' (fun _ _ _ hkey hkey' => hkey.unique hkey') hkeys hreads
  · rintro rfl
    exact hreads

/-- A field nests a query exactly when its column nests columns, which are then those of the query. -/
theorem Selector.planned_inner? {thing : Thing} {selector : Selector} {column : Column}
    (h : selector.column? schema metadata thing = .ok (some column)) :
    Option.Rel (Query.Planned schema metadata) (selector.inner? thing) column.inner? := by
  cases selector with
  | field name =>
    rw [Selector.column?] at h
    obtain ⟨field, _, h⟩ := ok_of_bind h
    rw [(Field.column?_eq_some (Except.ok.inj h)).2.2]
    exact .none
  | nested path label options selection =>
    obtain ⟨_, opposite, target, _, _, hfield, hopposite, htarget, hcolumns, hcolumn, _⟩ := Selector.column?_nested h
    cases hcolumn
    rw [Selector.inner?, hfield, Option.bind_some, hopposite]
    exact .some ⟨target, htarget, hcolumns⟩

/-- The columns at a path are those of the level at that path. -/
theorem Query.Planned.at? (hdistinct : schema.DistinctFields) (h : query.Planned schema metadata columns)
    (path : List Nat) :
    Option.Rel (Query.Planned schema metadata) (query.at? schema path) (Column.at? path columns) := by
  induction path generalizing query columns with
  | nil => exact .some h
  | cons place path ih =>
    have ⟨thing, hthing, _⟩ := h
    rw [Query.at?, hthing, Option.bind_some, Column.at?]
    have hplace := rel_getElem?_of_forall₂ (h.forall₂ hdistinct hthing).2.2 place
    exact rel_bind (rel_bind hplace fun _ _ hcolumn => Selector.planned_inner? hcolumn) fun _ _ hinner => ih hinner

end Levels

theorem Query.planned_of_build {schema : Schema} {metadata : Bool} {query : Query} {plan : Plan}
    (h : Plan.build schema metadata query = .ok plan) : query.Planned schema metadata plan.columns := by
  obtain ⟨thing, columns, level, hthing, hcolumns, _, rfl⟩ := Plan.build_eq_ok h
  exact ⟨thing, hthing, hcolumns⟩

/-! ### Better plans -/

namespace Column

theorem isMetadata_tidy (schema : Schema) (column : Column) : (column.tidy schema).isMetadata = column.isMetadata := by
  cases column <;> rfl

theorem inner?_tidy (schema : Schema) (column : Column) :
    (column.tidy schema).inner? = column.inner?.map (tidyAll schema) := by
  cases column <;> rfl

theorem fieldColumns_tidyAll (schema : Schema) (columns : List Column) :
    fieldColumns (tidyAll schema columns) = (fieldColumns columns).map (tidy schema) := by
  rw [tidyAll_eq_map, fieldColumns, List.filter_map]
  simp only [Function.comp_def, isMetadata_tidy]
  rfl

theorem fieldKeys_tidyAll (schema : Schema) (columns : List Column) :
    fieldKeys (tidyAll schema columns) = fieldKeys columns := by
  rw [fieldKeys, fieldColumns_tidyAll, List.map_map]
  exact List.map_congr_left fun column _ => outputKey_tidy schema column

theorem at?_tidyAll (schema : Schema) (path : List Nat) (columns : List Column) :
    at? path (tidyAll schema columns) = (at? path columns).map (tidyAll schema) := by
  induction path generalizing columns with
  | nil => rfl
  | cons place path ih =>
    rw [at?, at?, fieldColumns_tidyAll, List.getElem?_map]
    cases (fieldColumns columns)[place]? with
    | none => rfl
    | some column =>
      rw [Option.map_some, Option.bind_some, Option.bind_some, inner?_tidy]
      cases column.inner? with
      | none => rfl
      | some inner => exact ih inner

end Column

namespace Plan

variable {schema : Schema} {metadata : Bool} {query : Query} {plan : Plan}

/-- At every level of an accepted query the columns of fields have the keys under which its response reads the stored
fields, in the order of the selection.  A better plan has the same keys at every level. -/
theorem keysAgree_at? (hdistinct : schema.DistinctFields) (hbuild : Plan.build schema metadata query = .ok plan)
    (path : List Nat) :
    Option.Rel (fun inner columns => ∃ thing, inner.KeysAgree schema thing columns) (query.at? schema path)
        (Column.at? path plan.columns) ∧
      (Column.at? path (plan.optimize schema).columns).map Column.fieldKeys =
        (Column.at? path plan.columns).map Column.fieldKeys := by
  constructor
  · refine rel_imp ((Query.planned_of_build hbuild).at? hdistinct path) fun inner columns hinner => ?_
    have ⟨thing, hthing, _⟩ := hinner
    exact ⟨thing, hinner.keysAgree hdistinct hthing⟩
  · rw [Plan.optimize_eq]
    dsimp only
    rw [Column.at?_tidyAll, Option.map_map]
    exact congrArg (Option.map · _) (funext (Column.fieldKeys_tidyAll schema))

end Plan

/-- The sessions of an account with all their fields. -/
def sessionQuery : Query where
  thing := "Session"
  selection := .all

/-- All accounts: their subscription, their name and their sessions under a key of its own. -/
def loginQuery : Query where
  thing := "Account"
  selection := .only [.field "plan", .field "name", .nested "sessions" (some "logins") {} .all]

/-- The columns of `sessionQuery`. -/
def sessionColumns : List Column :=
  [.metadata .thing none, .metadata .id none, .data "id" none, .reference "account" none .one none]

/-- The plan of `loginQuery`. -/
def loginPlan : Plan where
  thing := "Account"
  source := .scan ["Account"]
  columns :=
    [.metadata .thing none, .metadata .id none, .data "name" none,
     .nested ⟨"sessions", some "logins", "Session", none, none, .many, none, none, [], none⟩ sessionColumns]
  filter := none
  limit := none
  offset := none
  sort := []
  cardinality := .many

theorem Plan.keysAgree_at?_logins :
    accountSchema.DistinctFields ∧ Plan.build accountSchema true loginQuery = .ok loginPlan ∧
      loginQuery.at? accountSchema [1] = some sessionQuery ∧ Column.at? [1] loginPlan.columns = some sessionColumns ∧
      Column.fieldKeys loginPlan.columns = ["name", "logins"] ∧
      loginQuery.KeysAgree accountSchema accountThing loginPlan.columns ∧
      sessionQuery.KeysAgree accountSchema sessionThing sessionColumns := by
  have hdistinct : accountSchema.DistinctFields := by decide
  have hbuild : Plan.build accountSchema true loginQuery = .ok loginPlan := rfl
  have hquery : loginQuery.at? accountSchema [1] = some sessionQuery := rfl
  have hcolumns : Column.at? [1] loginPlan.columns = some sessionColumns := rfl
  have hroot := (Plan.keysAgree_at? hdistinct hbuild []).1
  have hnested := (Plan.keysAgree_at? hdistinct hbuild [1]).1
  rw [hquery, hcolumns] at hnested
  refine ⟨hdistinct, hbuild, hquery, hcolumns, rfl, ?_, ?_⟩
  · obtain ⟨⟨thing, hagree⟩⟩ := hroot
    cases hagree.found
    exact hagree
  · obtain ⟨⟨thing, hagree⟩⟩ := hnested
    cases hagree.found
    exact hagree

end ThingQuery
