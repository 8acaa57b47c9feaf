import ThingQuery.Proofs.ResponseKeys

/-!
# What a response consists of

When its keys are distinct, a response consists at every level of the metadata and of the selected fields in their
order, without those that are null unless nulls are returned (`Query.Answers`).  Every raw value is answered in this way
for an accepted query (`Query.Planned.answers`).
-/

namespace ThingQuery

/-! ### Levels of a query -/

theorem Selector.isVirtual_of_inner? {thing : Thing} {selector : Selector} {inner : Query}
    (h : selector.inner? thing = some inner) : selector.isVirtual thing = false := by
  cases selector with
  | field name => cases h
  | nested path label options selection =>
    obtain ⟨opposite, hopposite, _⟩ := Option.map_eq_some_iff.1 h
    obtain ⟨field, hfield, hkind⟩ := Option.bind_eq_some_iff.1 hopposite
    rw [Selector.isVirtual, Selector.fieldPath, hfield]
    exact FieldKind.isVirtual_of_opposite? hkind

theorem Selector.inner?_nested {thing : Thing} {path : String} {field : Field} {opposite : Opposite}
    (label : Option String) (options : Options) (selection : Selection) (hfield : thing.field? path = some field)
    (hopposite : field.kind.opposite? = some opposite) :
    (Selector.nested path label options selection).inner? thing = some ⟨opposite.thing, options, selection⟩ := by
  rw [Selector.inner?, hfield, Option.bind_some, hopposite]
  rfl

namespace Query

/-- A property of all levels of a query and of the things that they are about. -/
def Everywhere (schema : Schema) (P : Thing → Query → Prop) (query : Query) : Prop :=
  ∀ path level thing, query.at? schema path = some level → schema.thing? level.thing = some thing → P thing level

section Levels

variable {schema : Schema} {thing : Thing} {query nested : Query} {selector : Selector} {P : Thing → Query → Prop}

theorem Everywhere.here (h : query.Everywhere schema P) (hthing : schema.thing? query.thing = some thing) :
    P thing query := h [] query thing rfl hthing

/-- The query that a selected field nests is a level, and its levels are levels. -/
theorem exists_place (hthing : schema.thing? query.thing = some thing) (hselector : selector ∈ query.selectors thing)
    (hinner : selector.inner? thing = some nested) :
    ∃ place, ∀ path, query.at? schema (place :: path) = nested.at? schema path := by
  have hstored : selector ∈ query.stored thing :=
    mem_stored_iff.2 ⟨hselector, Selector.isVirtual_of_inner? hinner⟩
  obtain ⟨place, hplace⟩ := List.mem_iff_getElem?.1 hstored
  refine ⟨place, fun path => ?_⟩
  rw [at?, hthing, Option.bind_some, hplace, Option.bind_some, hinner, Option.bind_some]

theorem Everywhere.inner (h : query.Everywhere schema P) (hthing : schema.thing? query.thing = some thing)
    (hselector : selector ∈ query.selectors thing) (hinner : selector.inner? thing = some nested) :
    nested.Everywhere schema P := by
  obtain ⟨place, hplace⟩ := exists_place hthing hselector hinner
  exact fun path level target hlevel => h (place :: path) level target ((hplace path).trans hlevel)

theorem Everywhere.of_inner (hthing : schema.thing? query.thing = some thing) (hhere : P thing query)
    (hinner : ∀ selector ∈ query.selectors thing, ∀ inner, selector.inner? thing = some inner →
      inner.Everywhere schema P) : query.Everywhere schema P := by
  intro path level target hlevel htarget
  cases path with
  | nil =>
    cases hlevel
    cases hthing.symm.trans htarget
    exact hhere
  | cons place path =>
    rw [at?, hthing, Option.bind_some] at hlevel
    obtain ⟨inner, hplace, hlevel⟩ := Option.bind_eq_some_iff.1 hlevel
    obtain ⟨selector, hstored, hnested⟩ := Option.bind_eq_some_iff.1 hplace
    have hselector := (mem_stored_iff.1 (List.mem_of_getElem? hstored)).1
    exact hinner selector hselector inner hnested path level target hlevel htarget

end Levels

end Query

/-- What planning has found out about a selected field: it is declared, and the query that it nests is planned. -/
inductive Selector.Resolved (schema : Schema) (metadata : Bool) (thing : Thing) : Selector → Prop where
  | field {name : String} {field : Field} (hfield : thing.field? name = some field) :
    Resolved schema metadata thing (.field name)
  | nested {path : String} {label : Option String} {options : Options} {selection : Selection} {field : Field}
    {opposite : Opposite} {columns : List Column} (hfield : thing.field? path = some field)
    (hopposite : field.kind.opposite? = some opposite)
    (hinner : Query.Planned schema metadata ⟨opposite.thing, options, selection⟩ columns) :
    Resolved schema metadata thing (.nested path label options selection)

section Resolved

variable {schema : Schema} {metadata : Bool} {thing : Thing} {query : Query} {columns : List Column}
  {selector : Selector}

theorem Selector.resolved_of_column? {column : Option Column}
    (h : selector.column? schema metadata thing = .ok column) : selector.Resolved schema metadata thing := by
  cases selector with
  | field name =>
    rw [Selector.column?] at h
    obtain ⟨field, hfield, _⟩ := ok_of_bind h
    exact .field (field?_of_getField hfield)
  | nested path label options selection =>
    obtain ⟨_, _, target, _, _, hfield, hopposite, htarget, hcolumns, _⟩ := Selector.column?_nested h
    exact .nested hfield hopposite ⟨target, htarget, hcolumns⟩

theorem Query.Planned.resolved (hthing : schema.thing? query.thing = some thing)
    (h : query.Planned schema metadata columns) :
    ∀ selector ∈ query.selectors thing, selector.Resolved schema metadata thing := by
  intro selector hselector
  obtain ⟨found, hfound, hcolumns⟩ := h
  cases hthing.symm.trans hfound
  obtain ⟨hlisted, hkept⟩ := List.mem_filter.1 hselector
  cases hselection : query.selection with
  | all =>
    rw [hselection, Selection.selectors] at hlisted
    obtain ⟨field, hfield, rfl⟩ := List.mem_map.1 hlisted
    obtain ⟨found, hfound⟩ := Thing.exists_field?_of_mem hfield
    exact .field hfound
  | only selectors =>
    rw [hselection] at hlisted hcolumns
    rw [Selection.columns] at hcolumns
    obtain ⟨_, _, hcolumns⟩ := ok_of_bind hcolumns
    obtain ⟨own, hown, _⟩ := ok_of_bind hcolumns
    obtain ⟨column, hcolumn⟩ := exists_column?_of_listColumns hown _ hlisted (by simpa using hkept)
    exact Selector.resolved_of_column? hcolumn

theorem Selector.Resolved.planned_inner? (h : selector.Resolved schema metadata thing) {inner : Query}
    (hinner : selector.inner? thing = some inner) : ∃ columns, inner.Planned schema metadata columns := by
  cases h with
  | field => cases hinner
  | nested hfield hopposite hplanned =>
    rw [Selector.inner?_nested _ _ _ hfield hopposite] at hinner
    cases hinner
    exact ⟨_, hplanned⟩

theorem Query.Planned.exists_assemble (h : query.Planned schema metadata columns) (style : ResponseStyle) (raw : Json) :
    ∃ v, query.assemble style schema raw = .ok v := by
  have ⟨thing, hthing, _⟩ := h
  rw [Query.assemble_eq style hthing]
  refine style.exists_shapeRows_eq_ok (fun row => ?_) raw
  obtain ⟨parts, hparts, _⟩ := h.exists_parts hthing style row
  exact ⟨_, by rw [hparts]; rfl⟩

end Resolved

/-! ### Values of selected fields -/

/-- The value of a selected field in the response for a row: that of the field itself, or the response to the nested
query for what the row has under the key. -/
structure Selector.HasValue (style : ResponseStyle) (schema : Schema) (thing : Thing) (row : RawRow)
    (selector : Selector) (v : Json) : Prop where
  plain : selector.inner? thing = none → ∃ field, thing.field? selector.fieldPath = some field ∧
    v = (field.valueIn row selector.outputKey).getD .null
  absent : (selector.inner? thing).isSome → (row.lookup selector.outputKey).getD .null = .null → v = .null
  nested : ∀ inner raw, selector.inner? thing = some inner → row.lookup selector.outputKey = some raw →
    raw.isNull = false → inner.assemble style schema raw = .ok v

namespace Selector

variable {schema : Schema} {metadata : Bool} {thing : Thing} {selector : Selector} {columns : List Column}

theorem Resolved.exists_hasValue (h : selector.Resolved schema metadata thing) (style : ResponseStyle)
    (row : RawRow) : ∃ v, selector.HasValue style schema thing row v ∧
      selector.response style schema thing row = .ok (style.member selector.outputKey (some v)) := by
  cases h with
  | @field name field hfield =>
    refine ⟨(field.valueIn row name).getD .null, ⟨fun _ => ⟨field, hfield, rfl⟩, nofun, nofun⟩, ?_⟩
    rw [response_field style hfield]
    cases field.valueIn row name <;> rfl
  | @nested path label options selection field opposite columns hfield hopposite hplanned =>
    have ⟨target, htarget, _⟩ := hplanned
    have hinner := inner?_nested label options selection hfield hopposite
    rw [response_nested style hfield hopposite htarget]
    have hkey : (Selector.nested path label options selection).outputKey = label.getD path := rfl
    cases hfound : (row.lookup (label.getD path)).filter fun v => !v.isNull with
    | none =>
      refine ⟨.null, ⟨fun hnone => ?_, fun _ _ => rfl, fun _ raw _ hraw hnull => ?_⟩, rfl⟩
      · rw [hinner] at hnone
        cases hnone
      · rw [← hkey, hraw, Option.filter_some_pos (by rw [hnull]; rfl)] at hfound
        cases hfound
    | some raw =>
      obtain ⟨hraw, hnull⟩ := Option.filter_eq_some_iff.1 hfound
      obtain ⟨v, hv⟩ := hplanned.exists_assemble style raw
      refine ⟨v, ⟨fun hnone => ?_, fun _ hnone => ?_, fun inner raw' hinner' hraw' _ => ?_⟩, ?_⟩
      · rw [hinner] at hnone
        cases hnone
      · rw [hkey, hraw, Option.getD_some] at hnone
        rw [hnone] at hnull
        cases hnull
      · cases hinner.symm.trans hinner'
        rw [hkey, hraw] at hraw'
        cases hraw'
        exact hv
      · dsimp only
        rw [hv]
        rfl

end Selector

/-! ### Answers -/

/-- The members of a response for the selected fields of a row: nulls are kept only if nulls are returned. -/
def Query.shown (style : ResponseStyle) (thing : Thing) (query : Query) (value : Selector → Json) :
    List (String × Json) :=
  ((query.selectors thing).filter fun selector => style.returnNulls || !(value selector).isNull).map fun selector =>
    (selector.outputKey, value selector)

/-- The response to a query for a raw value contains what was asked, in the order of the selection, and nothing else. -/
inductive Query.Answers (style : ResponseStyle) (schema : Schema) : Query → Json → Json → Prop where
  /-- What is neither a list nor a row is returned as it is. -/
  | value {query : Query} {raw : Json} (harray : raw.array? = none) (hobject : raw.object? = none) :
    Answers style schema query raw raw
  | empty {query : Query} (hnulls : style.returnNulls = true) : Answers style schema query (.array []) .null
  | list {query : Query} {items outs : List Json} (hempty : items = [] → style.returnNulls = false)
    (hlength : outs.length = items.length)
    (hitems : ∀ (i : Nat) (item out : Json), items[i]? = some item → outs[i]? = some out →
      Answers style schema query item out) :
    Answers style schema query (.array items) (.array outs)
  /-- A row is answered by its metadata, if they are on, and the values of the selected fields. -/
  | row {query : Query} {thing : Thing} {row : RawRow} {value : Selector → Json}
    (hthing : schema.thing? query.thing = some thing)
    (hplain : ∀ selector ∈ query.selectors thing, selector.inner? thing = none →
      ∃ field, thing.field? selector.fieldPath = some field ∧
        value selector = (field.valueIn row selector.outputKey).getD .null)
    (habsent : ∀ selector ∈ query.selectors thing, (selector.inner? thing).isSome →
      (row.lookup selector.outputKey).getD .null = .null → value selector = .null)
    (hnested : ∀ selector ∈ query.selectors thing, ∀ inner raw, selector.inner? thing = some inner →
      row.lookup selector.outputKey = some raw → raw.isNull = false → Answers style schema inner raw (value selector)) :
    Answers style schema query (.object row)
      (.object ((if style.metadata then metadataOf schema thing query.options row else []) ++
        query.shown style thing value))

section Assembled

variable {schema : Schema} {metadata : Bool} {thing : Thing} {query : Query} {columns : List Column}
  {style : ResponseStyle}

theorem ResponseStyle.shapeItems_eq_mapM (style : ResponseStyle) (shape : RawRow → Except ResponseError Json)
    (items : List Json) : style.shapeItems shape items = items.mapM (style.shapeRows shape) := by
  induction items with
  | nil =>
    rw [ResponseStyle.shapeItems]
    rfl
  | cons item rest ih =>
    rw [ResponseStyle.shapeItems, List.mapM_cons, ih]

/-- A list is answered item by item, but an empty one may become null. -/
theorem Query.assemble_array (hthing : schema.thing? query.thing = some thing) (items : List Json) :
    query.assemble style schema (.array items) =
      if items = [] ∧ style.returnNulls then .ok .null
      else (items.mapM (query.assemble style schema)).map .array := by
  rw [funext (Query.assemble_eq style hthing)]
  cases items with
  | nil =>
    rw [ResponseStyle.shapeRows]
    cases style.returnNulls <;> rfl
  | cons item rest =>
    rw [ResponseStyle.shapeRows, if_neg (by simp), ResponseStyle.shapeItems_eq_mapM, List.mapM_cons]
    generalize style.shapeRows _ = shape
    cases shape item with
    | error e => rfl
    | ok v => cases rest.mapM shape <;> rfl

theorem Query.assemble_of_scalar (hthing : schema.thing? query.thing = some thing) {raw : Json}
    (harray : raw.array? = none) (hobject : raw.object? = none) : query.assemble style schema raw = .ok raw := by
  rw [Query.assemble_eq style hthing]
  cases raw with
  | array items => cases harray
  | object row => cases hobject
  | _ => rw [ResponseStyle.shapeRows]

theorem Selector.flatten_parts_eq {row : RawRow} {selectors : List Selector} {parts : List (List (String × Json))}
    (h : List.Forall₂ (fun selector part => selector.response style schema thing row = .ok part) selectors parts)
    {value : Selector → Json} (hvalue : ∀ selector ∈ selectors,
      selector.response style schema thing row = .ok (style.member selector.outputKey (some (value selector)))) :
    parts.flatten = (selectors.filter fun selector => style.returnNulls || !(value selector).isNull).map
      fun selector => (selector.outputKey, value selector) := by
  induction h with
  | nil => rfl
  | @cons selector part rest others hpart _ ih =>
    cases hpart.symm.trans (hvalue selector List.mem_cons_self)
    rw [List.flatten_cons, ih fun other hother => hvalue other (List.mem_cons_of_mem _ hother), List.filter_cons]
    unfold ResponseStyle.member
    cases style.returnNulls <;> cases hnull : (value selector).isNull <;> simp [hnull]

/-- The members of the response for a row of an accepted query whose response keys are distinct. -/
theorem Query.Planned.exists_shown (hthing : schema.thing? query.thing = some thing)
    (h : query.Planned schema metadata columns) (hnodup : (query.responseKeys style.metadata thing).Nodup)
    (row : RawRow) :
    ∃ value : Selector → Json,
      (∀ selector ∈ query.selectors thing, selector.HasValue style schema thing row (value selector)) ∧
      query.assemble style schema (.object row) =
        .ok (.object ((if style.metadata then metadataOf schema thing query.options row else []) ++
          query.shown style thing value)) := by
  choose! value hvalue hresponse using
    fun selector hselector => (h.resolved hthing selector hselector).exists_hasValue style row
  obtain ⟨parts, hparts, hresponses⟩ := h.exists_parts hthing style row
  obtain ⟨members, hwritten, hassemble, hsub, _⟩ := h.exists_written hthing style row
  have hmembers : members = (if style.metadata then metadataOf schema thing query.options row else []) ++
      query.shown style thing value := by
    rw [Query.written, hparts] at hwritten
    rw [Query.shown, ← Selector.flatten_parts_eq hresponses hresponse]
    exact (Except.ok.inj hwritten).symm
  have hkeys : (members.map (·.1)).Nodup := hnodup.sublist hsub
  refine ⟨value, hvalue, ?_⟩
  rw [hassemble, ← hmembers]
  exact congrArg (fun out => Except.ok (Json.object out)) (Json.foldl_insertMember hkeys)

theorem sizeOf_lt_of_lookup {row : RawRow} {key : String} {v : Json} (h : row.lookup key = some v) :
    sizeOf v < sizeOf row := by
  obtain ⟨before, after, rfl, _⟩ := List.lookup_eq_some_iff.1 h
  have hlt : sizeOf (key, v) < sizeOf (before ++ (key, v) :: after) := List.sizeOf_lt_of_mem (by simp)
  rw [Prod.mk.sizeOf_spec] at hlt
  omega

/-- Every response to an accepted query whose response keys are distinct at every level answers it. -/
theorem Query.Planned.answers {query : Query} {columns : List Column} (h : query.Planned schema metadata columns)
    (hdistinct : query.Everywhere schema fun thing level => (level.responseKeys style.metadata thing).Nodup)
    {raw out : Json} (hout : query.assemble style schema raw = .ok out) : query.Answers style schema raw out := by
  have ⟨thing, hthing, _⟩ := h
  match raw with
  | .array items =>
    rw [Query.assemble_array hthing] at hout
    by_cases hempty : items = [] ∧ style.returnNulls = true
    · rw [if_pos hempty] at hout
      cases hout
      rw [hempty.1]
      exact .empty hempty.2
    · rw [if_neg hempty] at hout
      obtain ⟨outs, houts, rfl⟩ := ok_of_map hout
      obtain ⟨hlength, hplaces⟩ := getElem?_of_mapM houts
      refine .list (fun hnil => by simpa [hnil] using hempty) hlength fun i item v hitem hv => ?_
      obtain ⟨v', hv', hassemble⟩ := hplaces i item hitem
      cases hv.symm.trans hv'
      have hlt := List.sizeOf_lt_of_mem (List.mem_of_getElem? hitem)
      exact h.answers hdistinct hassemble
  | .object row =>
    obtain ⟨value, hvalue, hassemble⟩ := h.exists_shown hthing (hdistinct.here hthing) row
    cases hout.symm.trans hassemble
    refine .row hthing (fun s hs => (hvalue s hs).plain) (fun s hs => (hvalue s hs).absent)
      fun selector hselector inner raw hinner hraw hnull => ?_
    obtain ⟨_, hplanned⟩ := (h.resolved hthing selector hselector).planned_inner? hinner
    have hlt := sizeOf_lt_of_lookup hraw
    exact hplanned.answers (hdistinct.inner hthing hselector hinner)
      ((hvalue selector hselector).nested inner raw hinner hraw hnull)
  | .null | .bool _ | .number _ | .string _ =>
    rw [Query.assemble_of_scalar hthing rfl rfl] at hout
    cases hout
    exact .value rfl rfl
termination_by sizeOf raw

end Assembled

end ThingQuery
