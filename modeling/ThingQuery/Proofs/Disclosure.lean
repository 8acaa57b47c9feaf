import Mathlib.Data.Fintype.EquivFin
import ThingQuery.Proofs.Answers

/-!
# What a response discloses

Raw rows may hold more than the caller of a query asked for.  Columns that a level neither selects nor reads its
metadata from have no effect on the response (`Query.Alike`), with one exception: the key of a record may be read from
the column of a nested field, and the rows in it are then returned as they are (`Query.Exposes`).
-/

namespace ThingQuery

/-! ### Raw values that differ in what was not asked for -/

/-- Two raw values are the same but for the order of columns in their rows and for columns that the level of the row
neither selects nor reads its metadata from. -/
inductive Query.Alike (schema : Schema) : Query → Json → Json → Prop where
  | refl (query : Query) (raw : Json) : Alike schema query raw raw
  | list {query : Query} {items items' : List Json} (hlength : items.length = items'.length)
    (hitems : ∀ (i : Nat) (item item' : Json), items[i]? = some item → items'[i]? = some item' →
      Alike schema query item item') :
    Alike schema query (.array items) (.array items')
  /-- The columns that are selected or hold metadata are the same, and nested ones as far as they are asked for. -/
  | row {query : Query} {thing : Thing} {row row' : RawRow} (hthing : schema.thing? query.thing = some thing)
    (hplain : ∀ selector ∈ query.selectors thing, selector.inner? thing = none →
      row.lookup selector.outputKey = row'.lookup selector.outputKey)
    (hpresent : ∀ selector ∈ query.selectors thing,
      (row.lookup selector.outputKey).isSome = (row'.lookup selector.outputKey).isSome)
    (hnested : ∀ selector ∈ query.selectors thing, ∀ inner raw raw', selector.inner? thing = some inner →
      row.lookup selector.outputKey = some raw → row'.lookup selector.outputKey = some raw' →
      Alike schema inner raw raw')
    (hmetadata : ∀ key ∈ "$thing" :: "$id" :: thing.idFields,
      (∀ selector ∈ query.selectors thing, (selector.inner? thing).isSome → selector.outputKey ≠ key) →
      row.lookup key = row'.lookup key) :
    Alike schema query (.object row) (.object row')

/-- Whether a selected field is computed. -/
def Selector.isComputed (thing : Thing) (selector : Selector) : Bool :=
  (thing.field? selector.fieldPath).any fun field =>
    match field.kind with
    | .computed _ => true
    | _ => false

/-- The key of a record may be read from the column of a nested field. -/
def Query.Exposes (metadata : Bool) (thing : Thing) (query : Query) : Prop :=
  metadata = true ∧ query.options.id.bind IdSelector.single? = none ∧
    ∃ selector ∈ query.selectors thing, (selector.inner? thing).isSome ∧ selector.outputKey ∈ thing.idFields

section Unasked

variable {schema : Schema} {metadata : Bool} {thing : Thing} {query : Query} {columns : List Column}
  {style : ResponseStyle} {selector : Selector} {row row' : RawRow}

theorem Query.outputKey_notMem_metadataKeys (hnodup : (query.responseKeys metadata thing).Nodup)
    (hselector : selector ∈ query.selectors thing) : selector.outputKey ∉ metadataKeys metadata := by
  rw [Query.responseKeys, List.nodup_append] at hnodup
  exact fun hmem => hnodup.2.2 _ hmem _ (List.mem_map_of_mem hselector) rfl

theorem findSome?_congr {α β : Type} {f g : α → Option β} {as : List α} (h : ∀ a ∈ as, f a = g a) :
    as.findSome? f = as.findSome? g := by
  induction as with
  | nil => rfl
  | cons a as ih =>
    rw [List.findSome?_cons, List.findSome?_cons, h a List.mem_cons_self,
      ih fun b hb => h b (List.mem_cons_of_mem _ hb)]

/-- The metadata of a row depend only on the columns that name its thing and its key. -/
theorem metadataOf_congr (schema : Schema) {options : Options} (hthing : row.lookup "$thing" = row'.lookup "$thing")
    (hid : row.lookup "$id" = row'.lookup "$id")
    (hkeys : options.id.bind IdSelector.single? = none → ∀ key ∈ thing.idFields, row.lookup key = row'.lookup key) :
    metadataOf schema thing options row = metadataOf schema thing options row' := by
  unfold metadataOf
  rw [hthing, hid]
  cases hsingle : options.id.bind IdSelector.single? with
  | none => rw [findSome?_congr (hkeys hsingle)]
  | some id => cases (row'.lookup "$id").filter fun v => !v.isNull <;> rfl

/-- A field that is neither nested nor computed is answered from its own column. -/
theorem Field.valueIn_congr_of_not_computed {field : Field} (hcomputed : ∀ compute, field.kind ≠ .computed compute)
    {key : String} (h : row.lookup key = row'.lookup key) : field.valueIn row key = field.valueIn row' key := by
  by_cases hvirtual : field.kind.isVirtual = true
  · unfold Field.valueIn
    cases hkind : field.kind with
    | constant v => rfl
    | computed compute => exact absurd hkind (hcomputed compute)
    | _ =>
      rw [hkind] at hvirtual
      cases hvirtual
  · exact Field.valueIn_congr (by simpa using hvirtual) h

/-- A selected field is answered alike from two rows with the same column or, if it is nested, with columns that are
answered alike. -/
theorem Selector.Resolved.response_congr (h : selector.Resolved schema metadata thing)
    (hcomputed : selector.isComputed thing = false)
    (hplain : selector.inner? thing = none → row.lookup selector.outputKey = row'.lookup selector.outputKey)
    (hpresent : (row.lookup selector.outputKey).isSome = (row'.lookup selector.outputKey).isSome)
    (hnested : ∀ inner raw raw', selector.inner? thing = some inner → row.lookup selector.outputKey = some raw →
      row'.lookup selector.outputKey = some raw' → raw.isNull = raw'.isNull ∧
        inner.assemble style schema raw = inner.assemble style schema raw') :
    selector.response style schema thing row = selector.response style schema thing row' := by
  cases h with
  | @field name field hfield =>
    have hkind : ∀ compute, field.kind ≠ .computed compute := by
      intro compute hkind
      rw [Selector.isComputed, Selector.fieldPath, hfield, Option.any_some, hkind] at hcomputed
      cases hcomputed
    have hvalue : field.valueIn row name = field.valueIn row' name :=
      Field.valueIn_congr_of_not_computed hkind (hplain rfl)
    rw [Selector.response_field style hfield, Selector.response_field style hfield, hvalue]
  | @nested path label options selection field opposite columns hfield hopposite hplanned =>
    obtain ⟨target, htarget, _⟩ := hplanned
    have hinner := Selector.inner?_nested label options selection hfield hopposite
    rw [Selector.response_nested style hfield hopposite htarget,
      Selector.response_nested style hfield hopposite htarget]
    have hkey : (Selector.nested path label options selection).outputKey = label.getD path := rfl
    rw [hkey] at hpresent hnested
    cases hraw : row.lookup (label.getD path) with
    | none =>
      rw [hraw, Option.isSome_none] at hpresent
      rw [Option.isNone_iff_eq_none.1 (Option.isSome_eq_false_iff.1 hpresent.symm)]
    | some raw =>
      rw [hraw, Option.isSome_some] at hpresent
      obtain ⟨raw', hraw'⟩ := Option.isSome_iff_exists.1 hpresent.symm
      obtain ⟨hnull, hassemble⟩ := hnested _ raw raw' hinner hraw hraw'
      rw [hraw']
      cases hsome : raw.isNull with
      | true => rw [Option.filter_some_neg (by simp [hsome]), Option.filter_some_neg (by simp [← hnull, hsome])]
      | false =>
        rw [Option.filter_some_pos (by simp [hsome]), Option.filter_some_pos (by simp [← hnull, hsome])]
        dsimp only
        rw [hassemble]

theorem mapM_eq_of_map_eq {ε α β γ : Type} {f : α → Except ε γ} {g : β → Except ε γ} {as : List α} {bs : List β}
    (h : as.map f = bs.map g) : as.mapM f = bs.mapM g := by
  have hmapped := congrArg (List.mapM id) h
  rwa [List.mapM_map, List.mapM_map] at hmapped

theorem Query.Alike.isNull_eq {raw raw' : Json} (h : query.Alike schema raw raw') : raw.isNull = raw'.isNull := by
  cases h <;> rfl

/-- Raw values that are alike have one response, unless some level exposes the rows of a nested field. -/
theorem Query.Alike.assemble_eq {raw raw' : Json} (halike : query.Alike schema raw raw')
    (h : query.Planned schema metadata columns)
    (hdistinct : query.Everywhere schema fun thing level => (level.responseKeys style.metadata thing).Nodup)
    (hcomputed : query.Everywhere schema fun thing level =>
      ∀ selector ∈ level.selectors thing, selector.isComputed thing = false)
    (hexposes : query.Everywhere schema fun thing level => ¬level.Exposes style.metadata thing) :
    query.assemble style schema raw = query.assemble style schema raw' := by
  induction halike generalizing columns with
  | refl => rfl
  | @list query items items' hlength hitems ih =>
    have ⟨thing, hthing, _⟩ := h
    have hempty : items = [] ↔ items' = [] := by
      rw [← List.length_eq_zero_iff, hlength, List.length_eq_zero_iff]
    have hmap : items.map (query.assemble style schema) = items'.map (query.assemble style schema) := by
      refine List.ext_getElem (by simpa using hlength) fun i hi hi' => ?_
      rw [List.length_map] at hi hi'
      rw [List.getElem_map, List.getElem_map]
      exact ih i _ _ (List.getElem?_eq_getElem hi) (List.getElem?_eq_getElem hi') h hdistinct hcomputed hexposes
    rw [Query.assemble_array hthing, Query.assemble_array hthing, mapM_eq_of_map_eq hmap]
    simp only [hempty]
  | @row query thing row row' hthing hplain hpresent hnested hmetadata ih =>
    have hparts : Selector.parts style schema thing row (query.selectors thing) =
        Selector.parts style schema thing row' (query.selectors thing) := by
      refine mapM_eq_of_map_eq (List.map_congr_left fun selector hselector => ?_)
      have hresolved := h.resolved hthing selector hselector
      refine hresolved.response_congr (hcomputed.here hthing selector hselector) (hplain selector hselector)
        (hpresent selector hselector) fun inner raw raw' hinner hraw hraw' => ?_
      obtain ⟨_, hplanned⟩ := hresolved.planned_inner? hinner
      exact ⟨(hnested selector hselector inner raw raw' hinner hraw hraw').isNull_eq,
        ih selector hselector inner raw raw' hinner hraw hraw' hplanned (hdistinct.inner hthing hselector hinner)
          (hcomputed.inner hthing hselector hinner) (hexposes.inner hthing hselector hinner)⟩
    have hstart : (if style.metadata then metadataOf schema thing query.options row else []) =
        if style.metadata then metadataOf schema thing query.options row' else [] := by
      cases hon : style.metadata with
      | false => rfl
      | true =>
        have hnodup := hdistinct.here hthing
        rw [hon] at hnodup
        -- no field is returned under a key of the metadata
        have hapart : ∀ key ∈ metadataKeys true, ∀ selector ∈ query.selectors thing,
            (selector.inner? thing).isSome → selector.outputKey ≠ key := by
          rintro _ hkey selector hselector _ rfl
          exact Query.outputKey_notMem_metadataKeys hnodup hselector hkey
        refine metadataOf_congr schema (hmetadata _ (by simp) (hapart _ (by decide)))
          (hmetadata _ (by simp) (hapart _ (by decide))) fun hsingle key hkey => ?_
        refine hmetadata key (by simp [hkey]) fun selector hselector hinner heq => ?_
        subst heq
        exact hexposes.here hthing ⟨hon, hsingle, selector, hselector, hinner, hkey⟩
    rw [Query.assemble_object hthing, Query.assemble_object hthing, Query.written, Query.written, hparts, hstart]

/-! ### Keys that are read from nested rows -/

theorem lookup_singleton_of_ne {key other : String} (h : other ≠ key) (v : Json) : [(key, v)].lookup other = none :=
  lookup_eq_none_of_notMem (by simpa using h)

/-- What differs in a nested column only is alike if the nested values are. -/
theorem Query.Alike.singleton (hthing : schema.thing? query.thing = some thing)
    (hkeys : ((query.selectors thing).map (·.outputKey)).Nodup) (hselector : selector ∈ query.selectors thing)
    {inner : Query} (hinner : selector.inner? thing = some inner) {raw raw' : Json}
    (h : inner.Alike schema raw raw') :
    query.Alike schema (.object [(selector.outputKey, raw)]) (.object [(selector.outputKey, raw')]) := by
  have hunique : ∀ other ∈ query.selectors thing, other.outputKey = selector.outputKey → other = selector :=
    fun other hother heq => List.inj_on_of_nodup_map hkeys hother hselector heq
  refine .row hthing (fun other hother hnone => ?_) (fun other hother => ?_) ?_ fun key _ hapart => ?_
  · have hne : other.outputKey ≠ selector.outputKey := by
      intro heq
      rw [hunique other hother heq, hinner] at hnone
      cases hnone
    rw [lookup_singleton_of_ne hne, lookup_singleton_of_ne hne]
  · by_cases heq : other.outputKey = selector.outputKey
    · rw [heq, List.lookup_cons_self, List.lookup_cons_self]
      rfl
    · rw [lookup_singleton_of_ne heq, lookup_singleton_of_ne heq]
  · intro other hother otherInner v v' hotherInner hv hv'
    by_cases heq : other.outputKey = selector.outputKey
    · rw [heq, List.lookup_cons_self] at hv hv'
      cases hv
      cases hv'
      rw [hunique other hother heq, hinner] at hotherInner
      cases hotherInner
      exact h
    · rw [lookup_singleton_of_ne heq] at hv
      cases hv
  · have hne : key ≠ selector.outputKey := Ne.symm (hapart selector hselector (by rw [hinner]; rfl))
    rw [lookup_singleton_of_ne hne, lookup_singleton_of_ne hne]

/-- A column that nothing reads makes no difference. -/
theorem Query.Alike.exists_unread (hthing : schema.thing? query.thing = some thing) :
    ∃ key, query.Alike schema (.object []) (.object [(key, .null)]) := by
  obtain ⟨key, hkey⟩ := Infinite.exists_notMem_finset
    ((query.selectors thing).map (·.outputKey) ++ "$thing" :: "$id" :: thing.idFields).toFinset
  rw [List.mem_toFinset, List.mem_append, not_or] at hkey
  have hfield : ∀ selector ∈ query.selectors thing, [(key, Json.null)].lookup selector.outputKey = none := by
    intro selector hselector
    refine lookup_singleton_of_ne ?_ .null
    rintro rfl
    exact hkey.1 (List.mem_map_of_mem hselector)
  refine ⟨key, .row hthing (fun selector hselector _ => ?_) (fun selector hselector => ?_) ?_ fun other hother _ => ?_⟩
  · rw [hfield selector hselector]
    rfl
  · rw [hfield selector hselector]
    rfl
  · intro selector hselector inner raw raw' _ hraw
    cases hraw
  · have hne : other ≠ key := by
      rintro rfl
      exact hkey.2 hother
    rw [lookup_singleton_of_ne hne]
    rfl

/-- The key of a record is what its row has in a column of a key field. -/
theorem getElem?_metadataOf_singleton {options : Options} {key : String} (raw : Json) (hne : "$id" ≠ key)
    (hsingle : options.id.bind IdSelector.single? = none) (hkey : key ∈ thing.idFields) :
    (metadataOf schema thing options [(key, raw)])[1]? = some ("$id", raw) := by
  have hfound : (thing.idFields.findSome? fun field => [(key, raw)].lookup field) = some raw := by
    cases hsome : thing.idFields.findSome? fun field => [(key, raw)].lookup field with
    | none =>
      have hnone := List.findSome?_eq_none_iff.1 hsome key hkey
      rw [List.lookup_cons_self] at hnone
      cases hnone
    | some v =>
      obtain ⟨field, _, hfield⟩ := List.exists_of_findSome?_eq_some hsome
      by_cases heq : field = key
      · rw [heq, List.lookup_cons_self] at hfield
        exact hfield.symm
      · rw [lookup_singleton_of_ne heq] at hfield
        cases hfield
  unfold metadataOf
  rw [lookup_singleton_of_ne hne, hsingle, hfound]
  rfl

theorem Query.Planned.exists_object (hthing : schema.thing? query.thing = some thing)
    (h : query.Planned schema metadata columns) (style : ResponseStyle) (row : RawRow) :
    ∃ out, query.assemble style schema (.object row) = .ok (.object out) := by
  obtain ⟨_, _, hassemble, _⟩ := h.exists_written hthing style row
  exact ⟨_, hassemble⟩

/-- The response to a nested query is found under the key of the field. -/
theorem Query.Planned.lookup_nested (hthing : schema.thing? query.thing = some thing)
    (h : query.Planned schema metadata columns) (hnodup : (query.responseKeys style.metadata thing).Nodup)
    (hselector : selector ∈ query.selectors thing) {inner : Query} (hinner : selector.inner? thing = some inner)
    {nested : RawRow} {out : List (String × Json)}
    (hnested : inner.assemble style schema (.object nested) = .ok (.object out)) :
    ∃ members, query.assemble style schema (.object [(selector.outputKey, .object nested)]) = .ok (.object members) ∧
      members.lookup selector.outputKey = some (.object out) := by
  obtain ⟨members, hcarries⟩ := h.carries hthing hnodup [(selector.outputKey, .object nested)]
  refine ⟨members, hcarries.assembled, ?_⟩
  obtain ⟨part, hpart, hlookup⟩ := hcarries.fields selector hselector
  obtain ⟨v, hvalue, hresponse⟩ := (h.resolved hthing selector hselector).exists_hasValue style _
  cases hnested.symm.trans (hvalue.nested inner _ hinner List.lookup_cons_self rfl)
  cases hpart.symm.trans hresponse
  rw [hlookup]
  exact List.lookup_cons_self

/-- Two rows that are alike but have different responses, if some level exposes the rows of a nested field. -/
theorem Query.Planned.exists_alike_ne {path : List Nat} {level : Query} (h : query.Planned schema metadata columns)
    (hdistinct : query.Everywhere schema fun thing level => (level.responseKeys style.metadata thing).Nodup)
    (hlevel : query.at? schema path = some level) (hthing : schema.thing? level.thing = some thing)
    (hexposes : level.Exposes style.metadata thing) :
    ∃ row row', query.Alike schema (.object row) (.object row') ∧
      query.assemble style schema (.object row) ≠ query.assemble style schema (.object row') := by
  induction path generalizing query columns with
  | nil =>
    obtain rfl : query = level := Option.some.inj hlevel
    obtain ⟨hon, hsingle, selector, hselector, hnested, hkey⟩ := hexposes
    obtain ⟨inner, hinner⟩ := Option.isSome_iff_exists.1 hnested
    have hnodup := hdistinct.here hthing
    have hkeys : ((query.selectors thing).map (·.outputKey)).Nodup := (List.nodup_append.1 hnodup).2.1
    obtain ⟨_, target, htarget, _⟩ := (h.resolved hthing selector hselector).planned_inner? hinner
    obtain ⟨key, hunread⟩ := Query.Alike.exists_unread htarget
    refine ⟨_, _, .singleton hthing hkeys hselector hinner hunread, fun heq => ?_⟩
    have hne : "$id" ≠ selector.outputKey := by
      intro hid
      rw [hon] at hnodup
      exact outputKey_notMem_metadataKeys hnodup hselector (hid ▸ by decide)
    obtain ⟨value, _, hout⟩ := h.exists_shown hthing hnodup [(selector.outputKey, .object [])]
    obtain ⟨value', _, hout'⟩ := h.exists_shown hthing hnodup [(selector.outputKey, .object [(key, .null)])]
    rw [hout, hout', if_pos hon, if_pos hon, Except.ok.injEq, Json.object.injEq] at heq
    have hid := congrArg (·[1]?) heq
    have hstart : ∀ (row : RawRow) (rest : List (String × Json)),
        (metadataOf schema thing query.options row ++ rest)[1]? = (metadataOf schema thing query.options row)[1]? :=
      fun _ _ => rfl
    simp only [hstart, getElem?_metadataOf_singleton _ hne hsingle hkey] at hid
    cases hid
  | cons place path ih =>
    have ⟨own, hown, _⟩ := h
    rw [Query.at?, hown, Option.bind_some] at hlevel
    obtain ⟨inner, hplace, hlevel⟩ := Option.bind_eq_some_iff.1 hlevel
    obtain ⟨selector, hstored, hinner⟩ := Option.bind_eq_some_iff.1 hplace
    have hselector := (mem_stored_iff.1 (List.mem_of_getElem? hstored)).1
    have hnodup := hdistinct.here hown
    have hkeys : ((query.selectors own).map (·.outputKey)).Nodup := (List.nodup_append.1 hnodup).2.1
    obtain ⟨_, hplanned⟩ := (h.resolved hown selector hselector).planned_inner? hinner
    obtain ⟨row, row', halike, hne⟩ := ih hplanned (hdistinct.inner hown hselector hinner) hlevel
    refine ⟨_, _, .singleton hown hkeys hselector hinner halike, fun heq => hne ?_⟩
    have ⟨target, htarget, _⟩ := hplanned
    obtain ⟨out, hout⟩ := hplanned.exists_object htarget style row
    obtain ⟨out', hout'⟩ := hplanned.exists_object htarget style row'
    obtain ⟨members, hmembers, hfound⟩ := h.lookup_nested hown hnodup hselector hinner hout
    obtain ⟨members', hmembers', hfound'⟩ := h.lookup_nested hown hnodup hselector hinner hout'
    rw [hmembers, hmembers', Except.ok.injEq, Json.object.injEq] at heq
    rw [heq, hfound', Option.some.injEq] at hfound
    rw [hout, hout', hfound]

end Unasked

/-- Every response to an accepted query whose response keys are distinct contains what was asked, in the order of the
selection, and nothing else.  If no computed field is selected, columns that were not asked for have no effect on it
exactly when no level exposes the rows of a nested field. -/
theorem Query.answers_of_build {schema : Schema} {metadata : Bool} {style : ResponseStyle} {query : Query} {plan : Plan}
    (hbuild : Plan.build schema metadata query = .ok plan)
    (hdistinct : query.Everywhere schema fun thing level => (level.responseKeys style.metadata thing).Nodup) :
    (∀ raw, ∃ out, query.assemble style schema raw = .ok out ∧ query.Answers style schema raw out) ∧
      ((query.Everywhere schema fun thing level => ∀ selector ∈ level.selectors thing,
          selector.isComputed thing = false) →
        ((∀ raw raw', query.Alike schema raw raw' →
            query.assemble style schema raw = query.assemble style schema raw') ↔
          query.Everywhere schema fun thing level => ¬level.Exposes style.metadata thing)) := by
  have hplanned := Query.planned_of_build hbuild
  refine ⟨fun raw => ?_, fun hcomputed => ⟨fun hsame path level thing hlevel hthing hexposes => ?_, ?_⟩⟩
  · obtain ⟨out, hout⟩ := hplanned.exists_assemble style raw
    exact ⟨out, hout, hplanned.answers hdistinct hout⟩
  · obtain ⟨row, row', halike, hne⟩ := hplanned.exists_alike_ne hdistinct hlevel hthing hexposes
    exact hne (hsame _ _ halike)
  · intro hexposes raw raw' halike
    exact halike.assemble_eq hplanned hdistinct hcomputed hexposes

section Logins

variable {P : Thing → Query → Prop}

theorem Query.Everywhere.of_flat {schema : Schema} {thing : Thing} {query : Query}
    (hthing : schema.thing? query.thing = some thing) (hhere : P thing query)
    (hflat : ∀ selector ∈ query.selectors thing, (selector.inner? thing).isNone = true) :
    query.Everywhere schema P := by
  refine .of_inner hthing hhere fun selector hselector inner hinner => ?_
  have hnone := hflat selector hselector
  rw [hinner] at hnone
  cases hnone

theorem loginQuery_everywhere (haccount : P accountThing loginQuery) (hsession : P sessionThing sessionQuery) :
    loginQuery.Everywhere accountSchema P := by
  refine .of_inner rfl haccount fun selector hselector inner hinner => ?_
  have hselectors : loginQuery.selectors accountThing =
      [.field "plan", .field "name", .nested "sessions" (some "logins") {} .all] := rfl
  rw [hselectors] at hselector
  simp only [List.mem_cons, List.not_mem_nil, or_false] at hselector
  rcases hselector with rfl | rfl | rfl
  · cases hinner
  · cases hinner
  · cases hinner
    exact .of_flat rfl hsession (by decide)

theorem Query.answers_of_build_logins :
    Plan.build accountSchema true loginQuery = .ok loginPlan ∧
      (loginQuery.Everywhere accountSchema fun thing level => (level.responseKeys true thing).Nodup) ∧
      (loginQuery.Everywhere accountSchema fun thing level =>
        ∀ selector ∈ level.selectors thing, selector.isComputed thing = false) ∧
      (loginQuery.Everywhere accountSchema fun thing level => ¬level.Exposes true thing) ∧
      ∀ raw raw', loginQuery.Alike accountSchema raw raw' →
        loginQuery.assemble {} accountSchema raw = loginQuery.assemble {} accountSchema raw' := by
  have hbuild : Plan.build accountSchema true loginQuery = .ok loginPlan := rfl
  have hdistinct : loginQuery.Everywhere accountSchema fun thing level =>
      (level.responseKeys ({} : ResponseStyle).metadata thing).Nodup := loginQuery_everywhere (by decide) (by decide)
  have hcomputed : loginQuery.Everywhere accountSchema fun thing level =>
      ∀ selector ∈ level.selectors thing, selector.isComputed thing = false :=
    loginQuery_everywhere (by decide) (by decide)
  have hexposes : loginQuery.Everywhere accountSchema fun thing level =>
      ¬level.Exposes ({} : ResponseStyle).metadata thing := by
    refine loginQuery_everywhere ?_ ?_ <;> rintro ⟨_, _, hkey⟩ <;> revert hkey <;> decide
  have ⟨_, hiff⟩ := Query.answers_of_build hbuild hdistinct
  exact ⟨hbuild, hdistinct, hcomputed, hexposes, (hiff hcomputed).2 hexposes⟩

/-- Accounts with the accounts of their sessions, under the name of the key field. -/
def keyedSessionsQuery : Query where
  thing := "Account"
  selection := .only [.field "name", .nested "sessions" (some "id") {} (.only [.field "account"])]

/-- The plan of `keyedSessionsQuery`. -/
def keyedSessionsPlan : Plan where
  thing := "Account"
  source := .scan ["Account"]
  columns :=
    [.metadata .thing none, .metadata .id none, .data "name" none,
     .nested ⟨"sessions", some "id", "Session", none, none, .many, none, none, [], none⟩
      [.metadata .thing none, .metadata .id none, .reference "account" none .one none]]
  filter := none
  limit := none
  offset := none
  sort := []
  cardinality := .many

theorem keyedSessionsQuery_everywhere (haccount : P accountThing keyedSessionsQuery)
    (hsession : P sessionThing ⟨"Session", {}, .only [.field "account"]⟩) :
    keyedSessionsQuery.Everywhere accountSchema P := by
  refine .of_inner rfl haccount fun selector hselector inner hinner => ?_
  have hselectors : keyedSessionsQuery.selectors accountThing =
      [.field "name", .nested "sessions" (some "id") {} (.only [.field "account"])] := rfl
  rw [hselectors] at hselector
  simp only [List.mem_cons, List.not_mem_nil, or_false] at hselector
  rcases hselector with rfl | rfl
  · cases hinner
  · cases hinner
    exact .of_flat rfl hsession (by decide)

end Logins

/-- The sessions of an account, with a column that nothing asks for. -/
def tokenRows (token : String) : Json :=
  .array [.object [("$id", .string "s1"), ("account", .string "a"), ("token", .string token)]]

/-- A row for `keyedSessionsQuery`. -/
def tokenRow (token : String) : Json := .object [("name", .string "Ada"), ("id", tokenRows token)]

theorem keyedSessionsQuery_alike (token token' : String) :
    keyedSessionsQuery.Alike accountSchema (tokenRow token) (tokenRow token') := by
  have hsession : Query.Alike accountSchema ⟨"Session", {}, .only [.field "account"]⟩ (tokenRows token)
      (tokenRows token') := by
    refine .list rfl fun i item item' hitem hitem' => ?_
    cases i with
    | zero =>
      cases hitem
      cases hitem'
      refine .row rfl ?_ ?_ (fun selector hselector inner raw raw' hinner => ?_) ?_
      · rintro _ (_ | ⟨_, ⟨⟩⟩) _
        rfl
      · rintro _ (_ | ⟨_, ⟨⟩⟩)
        rfl
      · cases List.mem_singleton.1 hselector
        cases hinner
      · rintro _ (_ | ⟨_, _ | ⟨_, _ | ⟨_, ⟨⟩⟩⟩⟩) _ <;> rfl
    | succ i => cases hitem
  refine .row rfl ?_ ?_ ?_ ?_
  · rintro _ (_ | ⟨_, _ | ⟨_, ⟨⟩⟩⟩) hinner
    · rfl
    · cases hinner
  · rintro _ (_ | ⟨_, _ | ⟨_, ⟨⟩⟩⟩) <;> rfl
  · rintro _ (_ | ⟨_, _ | ⟨_, ⟨⟩⟩⟩) inner raw raw' hinner hraw hraw'
    · cases hinner
    · cases hinner
      cases hraw
      cases hraw'
      exact hsession
  · rintro _ (_ | ⟨_, _ | ⟨_, _ | ⟨_, ⟨⟩⟩⟩⟩) hapart
    · rfl
    · rfl
    · exact absurd rfl (hapart (.nested "sessions" (some "id") {} (.only [.field "account"]))
        (List.mem_cons_of_mem _ List.mem_cons_self) rfl)

/-- A response discloses a column that nothing asks for: the key of the account is read from its sessions. -/
theorem Query.not_assemble_eq_keyedSessions :
    Plan.build accountSchema true keyedSessionsQuery = .ok keyedSessionsPlan ∧
      (keyedSessionsQuery.Everywhere accountSchema fun thing level => (level.responseKeys true thing).Nodup) ∧
      (keyedSessionsQuery.Everywhere accountSchema fun thing level =>
        ∀ selector ∈ level.selectors thing, selector.isComputed thing = false) ∧
      keyedSessionsQuery.Alike accountSchema (tokenRow "secret") (tokenRow "public") ∧
      keyedSessionsQuery.assemble {} accountSchema (tokenRow "secret") =
        .ok (.object [("$thing", .string "Account"), ("$id", tokenRows "secret"), ("$thingType", .string "entity"),
          ("name", .string "Ada"), ("id", .array [.object [("$thing", .string "Session"), ("$id", .string "s1"),
            ("$thingType", .string "relation"), ("account", .string "a")]])]) ∧
      keyedSessionsQuery.assemble {} accountSchema (tokenRow "secret") ≠
        keyedSessionsQuery.assemble {} accountSchema (tokenRow "public") := by
  refine ⟨rfl, keyedSessionsQuery_everywhere (by decide) (by decide),
    keyedSessionsQuery_everywhere (by decide) (by decide), keyedSessionsQuery_alike _ _, rfl, fun heq => ?_⟩
  -- the second members, which hold the key, differ
  injection heq with heq
  injection heq with heq
  have hid := congrArg (·[1]?) heq
  have hrows : tokenRows "secret" = tokenRows "public" := congrArg Prod.snd (Option.some.inj hid)
  simp [tokenRows] at hrows

end ThingQuery
