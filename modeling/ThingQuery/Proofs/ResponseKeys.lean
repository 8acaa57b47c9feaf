import ThingQuery.Proofs.RowKeys

/-!
# Keys of responses

Planning lets no two columns have one key, but a response has more keys than the rows it is shaped from: those of
constant and computed fields, and the kind of the thing among the metadata.  A member with such a key may be overwritten
by another (`Query.Overwrites`).  Whenever this is not so, a response carries for every selected field the value
computed for it (`Plan.nodup_responseKeys_at?`).
-/

namespace ThingQuery

/-! ### Members that are written -/

namespace Json

theorem insertMember_of_notMem {key : String} {v : Json} {members : List (String × Json)}
    (h : key ∉ members.map (·.1)) : insertMember key v members = members ++ [(key, v)] := by
  induction members with
  | nil => rfl
  | cons member rest ih =>
    obtain ⟨k, w⟩ := member
    rw [List.map_cons, List.mem_cons, not_or] at h
    rw [insertMember, if_neg (Ne.symm h.1), ih h.2, List.cons_append]

/-- Members with distinct keys are all kept. -/
theorem foldl_insertMember {members before : List (String × Json)} (h : ((before ++ members).map (·.1)).Nodup) :
    members.foldl (fun out (key, v) => insertMember key v out) before = before ++ members := by
  induction members generalizing before with
  | nil => simp
  | cons member rest ih =>
    obtain ⟨key, v⟩ := member
    have hkey : key ∉ before.map (·.1) := by
      rw [List.map_append, List.map_cons, List.nodup_append] at h
      exact fun hmem => h.2.2 key hmem key List.mem_cons_self rfl
    rw [List.foldl_cons]
    dsimp only
    rw [insertMember_of_notMem hkey, ih (by simpa using h)]
    simp

end Json

theorem lookup_eq_some_of_nodup {members : List (String × Json)} (h : (members.map (·.1)).Nodup)
    {member : String × Json} (hmem : member ∈ members) : members.lookup member.1 = some member.2 := by
  obtain ⟨before, after, rfl⟩ := List.append_of_mem hmem
  have hbefore : before.lookup member.1 = none := by
    rw [List.map_append, List.map_cons, List.nodup_append] at h
    exact lookup_eq_none_of_notMem fun hmem => h.2.2 _ hmem _ List.mem_cons_self rfl
  rw [List.lookup_append, hbefore, Option.none_or, List.lookup_cons_self]

namespace Query

variable {schema : Schema} {thing : Thing} {style : ResponseStyle}

/-- The keys of the metadata of a response. -/
def metadataKeys (metadata : Bool) : List String := if metadata then ["$thing", "$id", "$thingType"] else []

/-- The keys of a response to a query: those of the metadata and of the selected fields, virtual ones included. -/
def responseKeys (metadata : Bool) (thing : Thing) (query : Query) : List String :=
  metadataKeys metadata ++ (query.selectors thing).map (·.outputKey)

/-- The members of a response for a row in the order in which they are written; a later one under the same key
overwrites an earlier one. -/
def written (style : ResponseStyle) (schema : Schema) (thing : Thing) (query : Query) (row : RawRow) :
    Except ResponseError (List (String × Json)) :=
  (Selector.parts style schema thing row (query.selectors thing)).map fun parts =>
    (if style.metadata then metadataOf schema thing query.options row else []) ++ parts.flatten

theorem assemble_object {query : Query} (hthing : schema.thing? query.thing = some thing) (row : RawRow) :
    query.assemble style schema (.object row) = (query.written style schema thing row).map fun members =>
      .object (members.foldl (fun out (key, v) => Json.insertMember key v out) []) := by
  rw [assemble_eq style hthing, ResponseStyle.shapeRows, written]
  cases Selector.parts style schema thing row (query.selectors thing) <;> rfl

end Query

/-! ### Parts of a response -/

theorem ResponseStyle.keys_member (style : ResponseStyle) (key : String) (value : Option Json) :
    ((style.member key value).map (·.1)).Sublist [key] ∧
      (style.returnNulls = true → (style.member key value).map (·.1) = [key]) := by
  unfold ResponseStyle.member
  dsimp only
  split
  · simp_all
  · simp

/-- A selected field writes at most one member, under its key. -/
theorem Selector.exists_member_of_response {schema : Schema} {thing : Thing} {style : ResponseStyle} {row : RawRow}
    {selector : Selector} {part : List (String × Json)} (h : selector.response style schema thing row = .ok part) :
    ∃ value, part = style.member selector.outputKey value := by
  cases selector with
  | field name =>
    rw [Selector.response, Thing.responseMember] at h
    obtain ⟨field, _, h⟩ := ok_of_bind h
    cases h
    exact ⟨_, rfl⟩
  | nested path label options selection =>
    rw [Selector.response] at h
    obtain ⟨field, _, h⟩ := ok_of_bind h
    dsimp only at h
    split at h
    · cases h
      exact ⟨_, rfl⟩
    · split at h
      · cases h
      · obtain ⟨target, _, h⟩ := ok_of_bind h
        split at h
        · cases h
          exact ⟨_, rfl⟩
        · obtain ⟨v, _, h⟩ := ok_of_bind h
          cases h
          exact ⟨_, rfl⟩

theorem forall₂_of_mapM {ε α β : Type} {f : α → Except ε β} {as : List α} {bs : List β} (h : as.mapM f = .ok bs) :
    List.Forall₂ (fun a b => f a = .ok b) as bs := by
  induction as generalizing bs with
  | nil =>
    cases h
    exact .nil
  | cons a as ih =>
    rw [List.mapM_cons] at h
    obtain ⟨b, hb, h⟩ := ok_of_bind h
    obtain ⟨bs', hbs, h⟩ := ok_of_bind h
    cases h
    exact .cons hb (ih hbs)

section Parts

variable {schema : Schema} {thing : Thing} {style : ResponseStyle} {row : RawRow} {selectors : List Selector}
  {parts : List (List (String × Json))}

/-- The keys that are written are those of the selected fields, without those of absent values unless nulls are
returned. -/
theorem Selector.keys_flatten_parts (h : List.Forall₂ (fun selector part =>
      selector.response style schema thing row = .ok part) selectors parts) :
    (parts.flatten.map (·.1)).Sublist (selectors.map (·.outputKey)) ∧
      (style.returnNulls = true → parts.flatten.map (·.1) = selectors.map (·.outputKey)) := by
  induction h with
  | nil => simp
  | @cons selector part _ _ hpart _ ih =>
    obtain ⟨value, rfl⟩ := Selector.exists_member_of_response hpart
    obtain ⟨hsub, hall⟩ := style.keys_member selector.outputKey value
    rw [List.flatten_cons, List.map_append, List.map_cons, ← List.singleton_append]
    exact ⟨hsub.append ih.1, fun hnulls => by rw [hall hnulls, ih.2 hnulls]⟩

/-- Among fields with distinct keys, what is found under the key of a field is what that field has written. -/
theorem Selector.lookup_flatten_parts (h : List.Forall₂ (fun selector part =>
      selector.response style schema thing row = .ok part) selectors parts)
    (hnodup : (selectors.map (·.outputKey)).Nodup) : ∀ selector ∈ selectors, ∃ part,
      selector.response style schema thing row = .ok part ∧
        parts.flatten.lookup selector.outputKey = part.lookup selector.outputKey := by
  induction h with
  | nil => simp
  | @cons first part rest others hpart hothers ih =>
    rw [List.map_cons, List.nodup_cons] at hnodup
    intro selector hselector
    rcases List.mem_cons.1 hselector with rfl | hselector
    · refine ⟨part, hpart, ?_⟩
      have hkeys := (Selector.keys_flatten_parts hothers).1
      have hrest : others.flatten.lookup selector.outputKey = none :=
        lookup_eq_none_of_notMem fun hmem => hnodup.1 (hkeys.subset hmem)
      rw [List.flatten_cons, List.lookup_append, hrest, Option.or_none]
    · obtain ⟨own, hown, hlookup⟩ := ih hnodup.2 selector hselector
      refine ⟨own, hown, ?_⟩
      have hfirst : part.lookup selector.outputKey = none := by
        obtain ⟨value, rfl⟩ := Selector.exists_member_of_response hpart
        refine lookup_eq_none_of_notMem fun hmem => hnodup.1 ?_
        rw [← List.mem_singleton.1 ((style.keys_member first.outputKey value).1.subset hmem)]
        exact List.mem_map_of_mem hselector
      rw [List.flatten_cons, List.lookup_append, hfirst, Option.none_or, hlookup]

end Parts

/-! ### Responses with distinct keys -/

/-- The response to a query for a row carries the metadata, if any, and for every selected field what was computed for
it. -/
structure Query.Carries (style : ResponseStyle) (schema : Schema) (thing : Thing) (query : Query) (row : RawRow)
    (out : List (String × Json)) : Prop where
  assembled : query.assemble style schema (.object row) = .ok (.object out)
  metadata : style.metadata = true → ∀ member ∈ metadataOf schema thing query.options row,
    out.lookup member.1 = some member.2
  /-- A field that has written nothing is absent, and otherwise its value is found under its key. -/
  fields : ∀ selector ∈ query.selectors thing, ∃ part, selector.response style schema thing row = .ok part ∧
    out.lookup selector.outputKey = part.lookup selector.outputKey

namespace Query

variable {schema : Schema} {metadata : Bool} {thing : Thing} {query : Query} {columns : List Column}
  {style : ResponseStyle}

theorem keys_metadata (style : ResponseStyle) (schema : Schema) (thing : Thing) (options : Options) (row : RawRow) :
    (if style.metadata then metadataOf schema thing options row else []).map (·.1) = metadataKeys style.metadata := by
  cases style.metadata <;> rfl

/-- The members that are written for a row of an accepted query. -/
theorem Planned.exists_parts (hthing : schema.thing? query.thing = some thing)
    (h : query.Planned schema metadata columns) (style : ResponseStyle) (row : RawRow) :
    ∃ parts, Selector.parts style schema thing row (query.selectors thing) = .ok parts ∧
      List.Forall₂ (fun selector part => selector.response style schema thing row = .ok part)
        (query.selectors thing) parts := by
  obtain ⟨found, hfound, hcolumns⟩ := h
  cases hthing.symm.trans hfound
  obtain ⟨members, hmembers⟩ := query.selection.exists_response hcolumns style row
  rw [response_eq_parts] at hmembers
  obtain ⟨parts, hparts, _⟩ := ok_of_map hmembers
  exact ⟨parts, hparts, forall₂_of_mapM hparts⟩

/-- The response for a row is written member by member.  The keys that are written are the response keys, without those
of absent values unless nulls are returned. -/
theorem Planned.exists_written (hthing : schema.thing? query.thing = some thing)
    (h : query.Planned schema metadata columns) (style : ResponseStyle) (row : RawRow) :
    ∃ members, query.written style schema thing row = .ok members ∧
      query.assemble style schema (.object row) =
        .ok (.object (members.foldl (fun out (key, v) => Json.insertMember key v out) [])) ∧
      (members.map (·.1)).Sublist (query.responseKeys style.metadata thing) ∧
      (style.returnNulls = true → members.map (·.1) = query.responseKeys style.metadata thing) := by
  obtain ⟨parts, hparts, hresponses⟩ := h.exists_parts hthing style row
  obtain ⟨hsub, hall⟩ := Selector.keys_flatten_parts hresponses
  have hwritten : query.written style schema thing row =
      .ok ((if style.metadata then metadataOf schema thing query.options row else []) ++ parts.flatten) := by
    rw [written, hparts]
    rfl
  refine ⟨_, hwritten, ?_, ?_, fun hnulls => ?_⟩
  · rw [assemble_object hthing, hwritten]
    rfl
  · rw [List.map_append, keys_metadata, responseKeys]
    exact (List.Sublist.refl _).append hsub
  · rw [List.map_append, keys_metadata, responseKeys, hall hnulls]

/-- A response with distinct keys carries everything that is written. -/
theorem Planned.carries (hthing : schema.thing? query.thing = some thing) (h : query.Planned schema metadata columns)
    (hnodup : (query.responseKeys style.metadata thing).Nodup) (row : RawRow) :
    ∃ out, query.Carries style schema thing row out := by
  obtain ⟨parts, hparts, hresponses⟩ := h.exists_parts hthing style row
  obtain ⟨members, hwritten, hassemble, hsub, _⟩ := h.exists_written hthing style row
  have hkeys : (members.map (·.1)).Nodup := hnodup.sublist hsub
  have hmembers : members =
      (if style.metadata then metadataOf schema thing query.options row else []) ++ parts.flatten := by
    rw [written, hparts] at hwritten
    exact (Except.ok.inj hwritten).symm
  refine ⟨members, ?_, ?_, ?_⟩
  · rw [hassemble]
    exact congrArg (fun out => Except.ok (Json.object out)) (Json.foldl_insertMember hkeys)
  · intro hmetadata member hmember
    refine lookup_eq_some_of_nodup hkeys ?_
    rw [hmembers, if_pos hmetadata]
    exact List.mem_append_left _ hmember
  · intro selector hselector
    rw [responseKeys, List.nodup_append] at hnodup
    obtain ⟨part, hpart, hlookup⟩ := Selector.lookup_flatten_parts hresponses hnodup.2.1 selector hselector
    have hstart : (if style.metadata then metadataOf schema thing query.options row else []).lookup
        selector.outputKey = none := by
      refine lookup_eq_none_of_notMem fun hmem => ?_
      rw [keys_metadata] at hmem
      exact hnodup.2.2 _ hmem _ (List.mem_map_of_mem hselector) rfl
    exact ⟨part, hpart, by rw [hmembers, List.lookup_append, hstart, Option.none_or, hlookup]⟩

end Query

/-! ### Keys that planning does not compare -/

namespace Query

/-- The selected fields that are virtual and not excluded. -/
def virtual (thing : Thing) (query : Query) : List Selector := (query.selectors thing).filter (·.isVirtual thing)

/-- A member of a response is overwritten although the columns have distinct keys. -/
inductive Overwrites (metadata : Bool) (thing : Thing) (query : Query) : Prop where
  /-- A virtual field is selected twice. -/
  | twice (h : ¬((query.virtual thing).map (·.fieldPath)).Nodup)
  /-- A nested field is labelled with the name of a selected virtual field. -/
  | labelled {path label : String} {options : Options} {selection : Selection}
    (hnested : .nested path (some label) options selection ∈ query.stored thing)
    (hvirtual : .field label ∈ query.virtual thing)
  /-- A stored field is returned under the key of the thing's kind. -/
  | kind {selector : Selector} (hmetadata : metadata = true) (hstored : selector ∈ query.stored thing)
    (hkey : selector.outputKey = "$thingType")
  /-- A virtual field has the name of some metadata. -/
  | metadata {name : String} (hmetadata : metadata = true) (hvirtual : .field name ∈ query.virtual thing)
    (hname : name ∈ metadataKeys true)

variable {schema : Schema} {metadata : Bool} {thing : Thing} {query : Query} {columns : List Column}

theorem mem_stored_iff {selector : Selector} :
    selector ∈ query.stored thing ↔ selector ∈ query.selectors thing ∧ selector.isVirtual thing = false := by
  simp [stored]

theorem mem_virtual_iff {selector : Selector} :
    selector ∈ query.virtual thing ↔ selector ∈ query.selectors thing ∧ selector.isVirtual thing = true := by
  simp [virtual]

theorem nodup_responseKeys_iff_append (metadata : Bool) (thing : Thing) (query : Query) :
    (query.responseKeys metadata thing).Nodup ↔
      (metadataKeys metadata ++
        ((query.stored thing).map (·.outputKey) ++ (query.virtual thing).map (·.outputKey))).Nodup := by
  have hperm : (query.virtual thing ++ query.stored thing).Perm (query.selectors thing) :=
    List.filter_append_perm _ _
  rw [← List.map_append, responseKeys]
  exact (((List.perm_append_comm.trans hperm).map _).append_left _).nodup_iff.symm

theorem exists_column?_of_listColumns {excluded : List String} {selectors : List Selector}
    (h : Selector.listColumns schema metadata thing excluded selectors = .ok columns) :
    ∀ selector ∈ selectors, excluded.contains selector.fieldPath = false →
      ∃ column, selector.column? schema metadata thing = .ok column := by
  induction selectors generalizing columns with
  | nil => simp
  | cons first rest ih =>
    intro selector hselector hkept
    rw [Selector.listColumns] at h
    by_cases hexcluded : excluded.contains first.fieldPath = true
    · rw [if_pos hexcluded] at h
      rcases List.mem_cons.1 hselector with rfl | hselector
      · rw [hkept] at hexcluded
        cases hexcluded
      · exact ih h selector hselector hkept
    · rw [if_neg hexcluded] at h
      obtain ⟨column, hcolumn, h⟩ := ok_of_bind h
      obtain ⟨others, hothers, _⟩ := ok_of_bind h
      rcases List.mem_cons.1 hselector with rfl | hselector
      · exact ⟨column, hcolumn⟩
      · exact ih hothers selector hselector hkept

/-- In an accepted query nothing is nested in a virtual field. -/
theorem Planned.exists_field_of_mem_virtual (hthing : schema.thing? query.thing = some thing)
    (h : query.Planned schema metadata columns) {selector : Selector} (hvirtual : selector ∈ query.virtual thing) :
    ∃ name, selector = .field name := by
  obtain ⟨found, hfound, hcolumns⟩ := h
  cases hthing.symm.trans hfound
  obtain ⟨hmem, hkind⟩ := mem_virtual_iff.1 hvirtual
  obtain ⟨hlisted, hkept⟩ := List.mem_filter.1 hmem
  cases selector with
  | field name => exact ⟨name, rfl⟩
  | nested path label options selection =>
    cases hselection : query.selection with
    | all =>
      rw [hselection, Selection.selectors] at hlisted
      obtain ⟨_, _, hfield⟩ := List.mem_map.1 hlisted
      cases hfield
    | only selectors =>
      rw [hselection] at hlisted hcolumns
      rw [Selection.columns] at hcolumns
      obtain ⟨_, _, hcolumns⟩ := ok_of_bind hcolumns
      obtain ⟨own, hown, _⟩ := ok_of_bind hcolumns
      obtain ⟨column, hcolumn⟩ := exists_column?_of_listColumns hown _ hlisted (by simpa using hkept)
      obtain ⟨_, _, _, _, _, _, _, _, _, rfl, _⟩ := Selector.column?_nested hcolumn
      -- a nested field has a column, and a virtual one has none
      have hstored := Selector.isNone_of_column? hcolumn
      rw [hkind] at hstored
      cases hstored

/-- The keys of an accepted query that planning has compared. -/
theorem Planned.nodup_stored (hdistinct : schema.DistinctFields) (hthing : schema.thing? query.thing = some thing)
    (h : query.Planned schema metadata columns) :
    ((if metadata then ["$thing", "$id"] else []) ++ (query.stored thing).map (·.outputKey)).Nodup := by
  obtain ⟨hcolumns, hnodup, hstored⟩ := h.forall₂ hdistinct hthing
  have hkeys : (Column.fieldColumns columns).map (·.outputKey) = (query.stored thing).map (·.outputKey) := by
    rw [← List.forall₂_eq_eq_eq, List.forall₂_map_left_iff, List.forall₂_map_right_iff]
    exact (hstored.imp fun _ _ hcolumn => (Selector.outputKey_of_column? hcolumn).1).flip
  rw [hcolumns, List.map_append, hkeys] at hnodup
  cases metadata <;> exact hnodup

/-- A stored and a virtual field of an accepted query have one key only if the stored one is labelled so. -/
theorem overwrites_of_outputKey_eq {selector : Selector} {name : String} (hstored : selector ∈ query.stored thing)
    (hvirtual : .field name ∈ query.virtual thing) (hkey : selector.outputKey = name) :
    query.Overwrites metadata thing := by
  have hpath : selector.fieldPath ≠ name := by
    intro hpath
    have hsame : selector.isVirtual thing = (Selector.field name).isVirtual thing := by
      unfold Selector.isVirtual
      rw [hpath]
      rfl
    rw [(mem_stored_iff.1 hstored).2, (mem_virtual_iff.1 hvirtual).2] at hsame
    cases hsame
  match selector with
  | .field _ => exact absurd hkey hpath
  | .nested path none options selection => exact absurd hkey hpath
  | .nested path (some label) options selection =>
    cases hkey
    exact .labelled hstored hvirtual

/-- Planning has compared the keys of stored fields with all metadata but the thing's kind. -/
theorem Planned.overwrites_of_mem_metadataKeys (hdistinct : schema.DistinctFields)
    (hthing : schema.thing? query.thing = some thing) (h : query.Planned schema metadata columns) {selector : Selector}
    (hstored : selector ∈ query.stored thing) (hkey : selector.outputKey ∈ metadataKeys metadata) :
    query.Overwrites metadata thing := by
  have hapart := (List.nodup_append.1 (h.nodup_stored hdistinct hthing)).2.2
  have hmem : selector.outputKey ∈ (query.stored thing).map (·.outputKey) := List.mem_map_of_mem hstored
  cases metadata with
  | false => cases hkey
  | true =>
    simp only [metadataKeys, if_true, List.mem_cons, List.not_mem_nil, or_false] at hkey
    rcases hkey with hthingKey | hidKey | hkind
    · exact absurd hthingKey.symm (hapart "$thing" (by simp) _ hmem)
    · exact absurd hidKey.symm (hapart "$id" (by simp) _ hmem)
    · exact .kind rfl hstored hkind

theorem Planned.nodup_responseKeys_iff (hdistinct : schema.DistinctFields)
    (hthing : schema.thing? query.thing = some thing) (h : query.Planned schema metadata columns) :
    (query.responseKeys metadata thing).Nodup ↔ ¬query.Overwrites metadata thing := by
  have hnames : (query.virtual thing).map (·.outputKey) = (query.virtual thing).map (·.fieldPath) := by
    refine List.map_congr_left fun selector hselector => ?_
    obtain ⟨name, rfl⟩ := h.exists_field_of_mem_virtual hthing hselector
    rfl
  rw [nodup_responseKeys_iff_append, List.nodup_append, List.nodup_append]
  constructor
  · rintro ⟨_, ⟨_, hvirtual, hapart⟩, hmetadata⟩ hoverwrites
    cases hoverwrites with
    | twice htwice => exact htwice (hnames ▸ hvirtual)
    | labelled hnested hfield => exact hapart _ (List.mem_map_of_mem hnested) _ (List.mem_map_of_mem hfield) rfl
    | kind hon hstored hkey =>
      subst hon
      exact hmetadata "$thingType" (by decide) _ (List.mem_append_left _ (List.mem_map_of_mem hstored)) hkey.symm
    | metadata hon hfield hname =>
      subst hon
      exact hmetadata _ hname _ (List.mem_append_right _ (List.mem_map_of_mem hfield)) rfl
  · intro hnot
    have hkeys : (metadataKeys metadata).Nodup := by cases metadata <;> decide
    have hstored := (List.nodup_append.1 (h.nodup_stored hdistinct hthing)).2.1
    have hvirtual : ((query.virtual thing).map (·.outputKey)).Nodup := by
      rw [hnames]
      by_contra htwice
      exact hnot (.twice htwice)
    refine ⟨hkeys, ⟨hstored, hvirtual, ?_⟩, ?_⟩
    · intro key hkey other hother heq
      obtain ⟨selector, hselector, rfl⟩ := List.mem_map.1 hkey
      obtain ⟨field, hfield, rfl⟩ := List.mem_map.1 hother
      obtain ⟨name, rfl⟩ := h.exists_field_of_mem_virtual hthing hfield
      exact hnot (overwrites_of_outputKey_eq hselector hfield heq)
    · intro key hkey other hother heq
      subst heq
      rcases List.mem_append.1 hother with hother | hother
      · obtain ⟨selector, hselector, rfl⟩ := List.mem_map.1 hother
        exact hnot (h.overwrites_of_mem_metadataKeys hdistinct hthing hselector hkey)
      · obtain ⟨field, hfield, rfl⟩ := List.mem_map.1 hother
        obtain ⟨name, rfl⟩ := h.exists_field_of_mem_virtual hthing hfield
        cases metadata with
        | false => cases hkey
        | true => exact hnot (.metadata rfl hfield hkey)

/-- Every level of an accepted query is planned. -/
theorem Planned.of_at? (hdistinct : schema.DistinctFields) (h : query.Planned schema metadata columns)
    {path : List Nat} {inner : Query} (hinner : query.at? schema path = some inner) :
    ∃ columns, inner.Planned schema metadata columns := by
  have hrel := h.at? hdistinct path
  rw [hinner] at hrel
  generalize Column.at? path columns = found at hrel
  cases hrel with
  | some hplanned => exact ⟨_, hplanned⟩

end Query

/-- The keys of a response to an accepted query are distinct, at every level, exactly when nothing overwrites what
planning has not compared.  Then the response carries for every selected field what was computed for it. -/
theorem Plan.nodup_responseKeys_at? {schema : Schema} {style : ResponseStyle} {query : Query} {plan : Plan}
    (hdistinct : schema.DistinctFields) (hbuild : Plan.build schema style.metadata query = .ok plan)
    {path : List Nat} {inner : Query} (hinner : query.at? schema path = some inner) :
    ∃ thing, schema.thing? inner.thing = some thing ∧
      (∀ row, ∃ members, inner.written style schema thing row = .ok members ∧
        inner.assemble style schema (.object row) =
          .ok (.object (members.foldl (fun out (key, v) => Json.insertMember key v out) [])) ∧
        (members.map (·.1)).Sublist (inner.responseKeys style.metadata thing) ∧
        (style.returnNulls = true → members.map (·.1) = inner.responseKeys style.metadata thing)) ∧
      ((inner.responseKeys style.metadata thing).Nodup ↔ ¬inner.Overwrites style.metadata thing) ∧
      (¬inner.Overwrites style.metadata thing → ∀ row, ∃ out, inner.Carries style schema thing row out) := by
  obtain ⟨columns, hplanned⟩ := (Query.planned_of_build hbuild).of_at? hdistinct hinner
  have ⟨thing, hthing, _⟩ := hplanned
  have hiff := hplanned.nodup_responseKeys_iff hdistinct hthing
  exact ⟨thing, hthing, hplanned.exists_written hthing style, hiff,
    fun hnot row => hplanned.carries hthing (hiff.2 hnot) row⟩

theorem Plan.nodup_responseKeys_at?_logins :
    accountSchema.DistinctFields ∧ Plan.build accountSchema true loginQuery = .ok loginPlan ∧
      loginQuery.at? accountSchema [] = some loginQuery ∧
      loginQuery.responseKeys true accountThing = ["$thing", "$id", "$thingType", "plan", "name", "logins"] ∧
      ∃ out, loginQuery.Carries {} accountSchema accountThing [("name", .string "Ada")] out := by
  have hdistinct : accountSchema.DistinctFields := by decide
  have hbuild : Plan.build accountSchema ({} : ResponseStyle).metadata loginQuery = .ok loginPlan := rfl
  have hroot : loginQuery.at? accountSchema [] = some loginQuery := rfl
  have hkeys : loginQuery.responseKeys true accountThing =
      ["$thing", "$id", "$thingType", "plan", "name", "logins"] := rfl
  have hnodup : (loginQuery.responseKeys true accountThing).Nodup := by
    rw [hkeys]
    decide
  obtain ⟨thing, hthing, _, hiff, hcarries⟩ := Plan.nodup_responseKeys_at? hdistinct hbuild hroot
  cases hthing
  exact ⟨hdistinct, hbuild, hroot, hkeys, hcarries (hiff.1 hnodup) _⟩

/-- The subscription of an account and its sessions, under one key. -/
def maskingQuery : Query where
  thing := "Account"
  selection := .only [.field "plan", .nested "sessions" (some "plan") {} .all]

/-- The plan of `maskingQuery`. -/
def maskingPlan : Plan where
  thing := "Account"
  source := .scan ["Account"]
  columns :=
    [.nested ⟨"sessions", some "plan", "Session", none, none, .many, none, none, [], none⟩
      [.data "id" none, .reference "account" none .one none]]
  filter := none
  limit := none
  offset := none
  sort := []
  cardinality := .many

/-- An accepted query loses the constant that it selects: the sessions are written under the same key. -/
theorem Plan.not_nodup_responseKeys_masking :
    accountSchema.DistinctFields ∧ Plan.build accountSchema false maskingQuery = .ok maskingPlan ∧
      maskingQuery.at? accountSchema [] = some maskingQuery ∧
      ¬(maskingQuery.responseKeys false accountThing).Nodup ∧
      (Selector.field "plan").response ⟨false, false⟩ accountSchema accountThing
          [("plan", .array [.object [("id", .string "s1")]])] = .ok [("plan", .string "free")] ∧
      maskingQuery.assemble ⟨false, false⟩ accountSchema
          (.object [("plan", .array [.object [("id", .string "s1")]])]) =
        .ok (.object [("plan", .array [.object [("id", .string "s1")]])]) := by
  refine ⟨by decide, rfl, rfl, ?_, rfl, rfl⟩
  have hkeys : maskingQuery.responseKeys false accountThing = ["plan", "plan"] := rfl
  rw [hkeys]
  decide

end ThingQuery
