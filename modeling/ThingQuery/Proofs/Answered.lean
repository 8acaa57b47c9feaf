import ThingQuery.Batch.Basic
import ThingQuery.Proofs.TypedPlan

/-!
# Accepted queries are answered

Planning and shaping walk through the selection of a query separately.  They look up the same fields and things, so
whatever comes back for an accepted query can be shaped (`Query.exists_assemble_of_build`).  Hence a batch is sent once
or not at all, and once it is sent only the transport can spoil it, by an error of its own or by the number of its
results (`Schema.outcome_run`).
-/

namespace ThingQuery

/-! ### Lists of checks that all succeed -/

theorem exists_mapM_eq_ok {ε α β : Type} {f : α → Except ε β} {as : List α} (h : ∀ a ∈ as, ∃ b, f a = .ok b) :
    ∃ bs, as.mapM f = .ok bs := by
  induction as with
  | nil => exact ⟨[], rfl⟩
  | cons a as ih =>
    obtain ⟨b, hb⟩ := h a List.mem_cons_self
    obtain ⟨bs, hbs⟩ := ih fun a' ha' => h a' (List.mem_cons_of_mem _ ha')
    refine ⟨b :: bs, ?_⟩
    rw [List.mapM_cons, hb, hbs]
    rfl

/-- The results of a list of checks, place by place. -/
theorem getElem?_of_mapM {ε α β : Type} {f : α → Except ε β} {as : List α} {bs : List β} (h : as.mapM f = .ok bs) :
    bs.length = as.length ∧ ∀ (i : Nat) (a : α), as[i]? = some a → ∃ b, bs[i]? = some b ∧ f a = .ok b := by
  induction as generalizing bs with
  | nil =>
    cases h
    simp
  | cons a as ih =>
    rw [List.mapM_cons] at h
    obtain ⟨b, hb, h⟩ := ok_of_bind h
    obtain ⟨bs', hbs, h⟩ := ok_of_bind h
    cases h
    obtain ⟨hlength, hplaces⟩ := ih hbs
    refine ⟨by simp [hlength], fun i a' ha' => ?_⟩
    cases i with
    | zero =>
      cases ha'
      exact ⟨b, rfl, hb⟩
    | succ i => exact hplaces i a' ha'

/-! ### Responses -/

namespace ResponseStyle

variable (style : ResponseStyle) {shape : RawRow → Except ResponseError Json}

mutual

theorem exists_shapeRows_eq_ok (hshape : ∀ row, ∃ v, shape row = .ok v) (raw : Json) :
    ∃ v, style.shapeRows shape raw = .ok v := by
  match raw with
  | .array [] => exact ⟨_, by rw [shapeRows]⟩
  | .array (item :: rest) =>
    obtain ⟨v, hv⟩ := exists_shapeRows_eq_ok hshape item
    obtain ⟨vs, hvs⟩ := exists_shapeItems_eq_ok hshape rest
    refine ⟨.array (v :: vs), ?_⟩
    rw [shapeRows, hv, hvs]
    rfl
  | .object row =>
    rw [shapeRows]
    exact hshape row
  | .null => exact ⟨_, by rw [shapeRows]⟩
  | .bool b => exact ⟨_, by rw [shapeRows]⟩
  | .number n => exact ⟨_, by rw [shapeRows]⟩
  | .string s => exact ⟨_, by rw [shapeRows]⟩

theorem exists_shapeItems_eq_ok (hshape : ∀ row, ∃ v, shape row = .ok v) (items : List Json) :
    ∃ vs, style.shapeItems shape items = .ok vs := by
  match items with
  | [] => exact ⟨[], by rw [shapeItems]⟩
  | item :: rest =>
    obtain ⟨v, hv⟩ := exists_shapeRows_eq_ok hshape item
    obtain ⟨vs, hvs⟩ := exists_shapeItems_eq_ok hshape rest
    refine ⟨v :: vs, ?_⟩
    rw [shapeItems, hv, hvs]
    rfl

end

end ResponseStyle

theorem Thing.responseField_of_field? {thing : Thing} {name : String} {field : Field}
    (h : thing.field? name = some field) : thing.responseField name = .ok field := by
  unfold responseField
  rw [h]

theorem Schema.responseThing_of_thing? {schema : Schema} {name : String} {thing : Thing}
    (h : schema.thing? name = some thing) : schema.responseThing name = .ok thing := by
  unfold responseThing
  rw [h]

theorem Thing.exists_responseMember {thing : Thing} {name : String} {field : Field}
    (h : thing.field? name = some field) (style : ResponseStyle) (row : RawRow) :
    ∃ members, thing.responseMember style row name = .ok members := by
  unfold responseMember
  rw [responseField_of_field? h]
  exact ⟨_, rfl⟩

/-- A declared field is found by its name, if only in an earlier declaration. -/
theorem Thing.exists_field?_of_mem {thing : Thing} {field : Field} (h : field ∈ thing.fields) :
    ∃ found, thing.field? field.name = some found :=
  Option.isSome_iff_exists.1 (List.find?_isSome.2 ⟨field, h, beq_self_eq_true _⟩)

variable {schema : Schema} {metadata : Bool}

mutual

theorem Selection.exists_response {thing : Thing} {excluded : List String} (selection : Selection)
    {columns : List Column} (h : selection.columns schema metadata thing excluded = .ok columns)
    (style : ResponseStyle) (row : RawRow) :
    ∃ members, selection.response style schema thing excluded row = .ok members := by
  match selection with
  | .all =>
    have hfields : ∀ name ∈ (thing.fields.map (·.name)).filter fun name => !excluded.contains name,
        ∃ members, thing.responseMember style row name = .ok members := by
      intro name hname
      obtain ⟨field, hfield, rfl⟩ := List.mem_map.1 (List.mem_filter.1 hname).1
      obtain ⟨found, hfound⟩ := Thing.exists_field?_of_mem hfield
      exact Thing.exists_responseMember hfound style row
    obtain ⟨members, hmembers⟩ := exists_mapM_eq_ok hfields
    refine ⟨members.flatten, ?_⟩
    rw [Selection.response, hmembers]
    rfl
  | .only selectors =>
    rw [Selection.columns] at h
    obtain ⟨_, _, h⟩ := ok_of_bind h
    obtain ⟨listed, hlisted, _⟩ := ok_of_bind h
    rw [Selection.response]
    exact Selector.exists_listResponse selectors hlisted style row

theorem Selector.exists_listResponse {thing : Thing} {excluded : List String} (selectors : List Selector)
    {columns : List Column} (h : Selector.listColumns schema metadata thing excluded selectors = .ok columns)
    (style : ResponseStyle) (row : RawRow) :
    ∃ members, Selector.listResponse style schema thing excluded selectors row = .ok members := by
  match selectors with
  | [] => exact ⟨[], by rw [Selector.listResponse]⟩
  | selector :: rest =>
    rw [Selector.listColumns] at h
    rw [Selector.listResponse]
    by_cases hexcluded : excluded.contains selector.fieldPath = true
    · rw [if_pos hexcluded] at h ⊢
      exact Selector.exists_listResponse rest h style row
    · rw [if_neg hexcluded] at h ⊢
      obtain ⟨column, hcolumn, h⟩ := ok_of_bind h
      obtain ⟨others, hothers, _⟩ := ok_of_bind h
      obtain ⟨member, hmember⟩ := Selector.exists_response selector hcolumn style row
      obtain ⟨members, hmembers⟩ := Selector.exists_listResponse rest hothers style row
      refine ⟨member ++ members, ?_⟩
      rw [hmember, hmembers]
      rfl

theorem Selector.exists_response {thing : Thing} (selector : Selector) {column : Option Column}
    (h : selector.column? schema metadata thing = .ok column) (style : ResponseStyle) (row : RawRow) :
    ∃ members, selector.response style schema thing row = .ok members := by
  match selector with
  | .field name =>
    rw [Selector.column?] at h
    obtain ⟨field, hfield, _⟩ := ok_of_bind h
    rw [Selector.response]
    exact Thing.exists_responseMember (field?_of_getField hfield) style row
  | .nested path label options selection =>
    rw [Selector.column?] at h
    obtain ⟨field, hfield, h⟩ := ok_of_bind h
    rw [Selector.response, Thing.responseField_of_field? (field?_of_getField hfield)]
    change ∃ members, (if field.kind.isVirtual then _ else _) = Except.ok members
    by_cases hvirtual : field.kind.isVirtual = true
    · rw [if_pos hvirtual]
      exact ⟨_, rfl⟩
    · rw [if_neg hvirtual]
      -- only a link or a role is accepted with a selection of its own
      cases hopposite : field.kind.opposite? with
      | none =>
        rw [hopposite] at h
        cases hcardinality : field.kind.cardinality? <;> rw [hcardinality] at h <;> cases h
      | some opposite =>
        cases hcardinality : field.kind.cardinality? with
        | none =>
          rw [hopposite, hcardinality] at h
          cases h
        | some cardinality =>
          rw [hopposite, hcardinality] at h
          obtain ⟨target, htarget, h⟩ := ok_of_bind h
          obtain ⟨columns, hcolumns, _⟩ := ok_of_bind h
          have hthing := thing?_of_targetThing htarget
          have hshape : ∀ inner, ∃ v, (do
              let members ← Selection.response style schema target options.excluded selection inner
              pure (style.objectOf schema target options inner members)) = Except.ok v := by
            intro inner
            obtain ⟨members, hmembers⟩ := Selection.exists_response selection hcolumns style inner
            exact ⟨_, by rw [hmembers]; rfl⟩
          dsimp only
          rw [Schema.responseThing_of_thing? hthing]
          change ∃ members, (match (row.lookup (label.getD path)).filter fun v => !v.isNull with
            | none => _
            | some raw => _) = Except.ok members
          split
          · exact ⟨_, rfl⟩
          · rename_i raw _
            obtain ⟨v, hv⟩ := style.exists_shapeRows_eq_ok hshape raw
            exact ⟨_, by rw [hv]; rfl⟩

end

/-- Whatever comes back for an accepted query can be shaped. -/
theorem Query.exists_assemble_of_build {query : Query} {plan : Plan} (h : Plan.build schema metadata query = .ok plan)
    (style : ResponseStyle) (raw : Json) : ∃ v, query.assemble style schema raw = .ok v := by
  obtain ⟨thing, columns, _, hthing, hcolumns, _⟩ := Plan.build_eq_ok h
  unfold Query.assemble
  rw [Schema.responseThing_of_thing? hthing]
  refine style.exists_shapeRows_eq_ok (fun row => ?_) raw
  obtain ⟨members, hmembers⟩ := Selection.exists_response query.selection hcolumns style row
  exact ⟨_, by rw [hmembers]; rfl⟩

/-! ### Batches -/

namespace Schema

/-- Whether there is a plan for a query. -/
def Accepts (schema : Schema) (config : Config) (query : Query) : Prop :=
  ∃ plan, Plan.build schema config.metadata query = .ok plan

theorem plan_of_accepts {config : Config} {query : Query} (h : schema.Accepts config query) :
    ∃ plan, (schema.plan config query).result = .ok plan := by
  obtain ⟨built, hbuilt⟩ := h
  unfold plan
  rw [hbuilt]
  dsimp only
  split
  · exact ⟨_, rfl⟩
  · exact ⟨_, rfl⟩

theorem plan_of_refused {config : Config} {query : Query} {error : PlanError}
    (h : Plan.build schema config.metadata query = .error error) :
    (schema.plan config query).result = .error error := by
  unfold plan
  rw [h]

/-- The plans of a list of queries come from the first plan and the plans of the others. -/
theorem result_plans_cons (config : Config) (query : Query) (rest : List Query) :
    (schema.plans config (query :: rest)).result =
      match (schema.plan config query).result with
      | .error error => .error error
      | .ok first => (schema.plans config rest).result.map (first :: ·) := by
  rw [plans]
  rcases schema.plan config query with ⟨entries, error | first⟩ <;> rfl

theorem plans_of_accepts {config : Config} {queries : List Query} (h : ∀ q ∈ queries, schema.Accepts config q) :
    ∃ plans, (schema.plans config queries).result = .ok plans := by
  induction queries with
  | nil => exact ⟨[], rfl⟩
  | cons query rest ih =>
    obtain ⟨first, hfirst⟩ := plan_of_accepts (h query List.mem_cons_self)
    obtain ⟨others, hothers⟩ := ih fun q hq => h q (List.mem_cons_of_mem _ hq)
    refine ⟨first :: others, ?_⟩
    rw [result_plans_cons, hfirst, hothers]
    rfl

/-- The first refused query decides. -/
theorem plans_of_refused {config : Config} {before : List Query} {query : Query} {error : PlanError}
    (hbefore : ∀ q ∈ before, schema.Accepts config q)
    (h : Plan.build schema config.metadata query = .error error) (after : List Query) :
    (schema.plans config (before ++ query :: after)).result = .error error := by
  induction before with
  | nil => rw [List.nil_append, result_plans_cons, plan_of_refused h]
  | cons q before ih =>
    obtain ⟨first, hfirst⟩ := plan_of_accepts (hbefore q List.mem_cons_self)
    have hrest := ih fun q' hq' => hbefore q' (List.mem_cons_of_mem _ hq')
    rw [List.cons_append, result_plans_cons, hfirst, hrest]
    rfl

/-- Either all queries are accepted, or there is a first one that is not. -/
theorem accepts_or_refused (schema : Schema) (config : Config) (queries : List Query) :
    (∀ q ∈ queries, schema.Accepts config q) ∨
      ∃ before query after error, queries = before ++ query :: after ∧ (∀ q ∈ before, schema.Accepts config q) ∧
        Plan.build schema config.metadata query = .error error := by
  induction queries with
  | nil => exact .inl (by simp)
  | cons query rest ih =>
    cases hbuild : Plan.build schema config.metadata query with
    | error error => exact .inr ⟨[], query, rest, error, rfl, by simp, hbuild⟩
    | ok plan =>
      have hquery : schema.Accepts config query := ⟨plan, hbuild⟩
      rcases ih with hrest | ⟨before, q, after, error, rfl, hbefore, herror⟩
      · exact .inl (List.forall_mem_cons.2 ⟨hquery, hrest⟩)
      · exact .inr ⟨query :: before, q, after, error, rfl, List.forall_mem_cons.2 ⟨hquery, hbefore⟩, herror⟩

theorem compile_of_accepts {config : Config} {queries : List Query} (h : ∀ q ∈ queries, schema.Accepts config q) :
    ∃ batch, (schema.compile config queries).result = .ok batch := by
  obtain ⟨plans, hplans⟩ := plans_of_accepts h
  unfold compile
  split
  · rename_i heq
    rw [heq] at hplans
    cases hplans
  · exact ⟨_, rfl⟩

theorem forall₂_plan_of_accepts {config : Config} {queries : List Query} (h : ∀ q ∈ queries, schema.Accepts config q) :
    ∃ plans, List.Forall₂ (fun q plan => (schema.plan config q).result = .ok plan) queries plans := by
  induction queries with
  | nil => exact ⟨[], .nil⟩
  | cons query rest ih =>
    obtain ⟨first, hfirst⟩ := plan_of_accepts (h query List.mem_cons_self)
    obtain ⟨others, hothers⟩ := ih fun q hq => h q (List.mem_cons_of_mem _ hq)
    exact ⟨first :: others, .cons hfirst hothers⟩

theorem plans_of_forall₂ {config : Config} {queries : List Query} {plans : List Plan}
    (h : List.Forall₂ (fun q plan => (schema.plan config q).result = .ok plan) queries plans) :
    (schema.plans config queries).result = .ok plans := by
  induction h with
  | nil => rfl
  | cons hfirst _ ih =>
    rw [result_plans_cons, hfirst, ih]
    rfl

/-- The batch of queries is that of their plans, place by place. -/
theorem compile_of_forall₂ {config : Config} {queries : List Query} {plans : List Plan}
    (h : List.Forall₂ (fun q plan => (schema.plan config q).result = .ok plan) queries plans) :
    (schema.compile config queries).result = .ok (Batch.ofPlans plans) := by
  have hplans := plans_of_forall₂ h
  unfold compile
  split
  · rename_i heq
    rw [heq] at hplans
    cases hplans
  · rename_i heq
    rw [heq] at hplans
    cases hplans
    rfl

theorem compile_of_refused {config : Config} {before : List Query} {query : Query} {error : PlanError}
    (hbefore : ∀ q ∈ before, schema.Accepts config q)
    (h : Plan.build schema config.metadata query = .error error) (after : List Query) :
    (schema.compile config (before ++ query :: after)).result = .error (.plan error) := by
  have hplans := plans_of_refused hbefore h after
  unfold compile
  split
  · rename_i heq
    rw [heq] at hplans
    cases hplans
    rfl
  · rename_i heq
    rw [heq] at hplans
    cases hplans

/-- The responses to accepted queries, place by place. -/
theorem assemble_of_accepts {config : Config} {queries : List Query} {raw : List Json}
    (h : ∀ q ∈ queries, schema.Accepts config q) (hcount : raw.length = queries.length) :
    ∃ responses, schema.assemble config raw queries = .ok responses ∧ responses.length = queries.length ∧
      ∀ (i : Nat) (rows : Json) (query : Query), raw[i]? = some rows → queries[i]? = some query →
        ∃ v, responses[i]? = some v ∧
          query.assemble ⟨config.metadata, config.returnNulls⟩ schema rows = .ok v := by
  have hpairs : ∀ pair ∈ raw.zip queries,
      ∃ v, Query.assemble ⟨config.metadata, config.returnNulls⟩ schema pair.2 pair.1 = .ok v := by
    intro pair hpair
    obtain ⟨plan, hplan⟩ := h pair.2 (List.of_mem_zip hpair).2
    exact Query.exists_assemble_of_build hplan _ _
  obtain ⟨responses, hresponses⟩ := exists_mapM_eq_ok hpairs
  obtain ⟨hlength, hplaces⟩ := getElem?_of_mapM hresponses
  refine ⟨responses, ?_, ?_, ?_⟩
  · unfold assemble
    rw [if_neg (not_not_intro hcount)]
    dsimp only
    rw [hresponses]
    rfl
  · rw [hlength, List.length_zip, hcount, Nat.min_self]
  · intro i rows query hrows hquery
    exact hplaces i (rows, query) (by rw [List.getElem?_zip_eq_some]; exact ⟨hrows, hquery⟩)

/-- What running a batch of queries comes to. -/
inductive Outcome (schema : Schema) (config : Config) (transport : Transport) (queries : List Query) :
    BatchRun → Prop where
  /-- Nothing is sent, and the error of the first refused query is returned. -/
  | refused {before after : List Query} {query : Query} {error : PlanError}
    (hqueries : queries = before ++ query :: after) (hbefore : ∀ q ∈ before, schema.Accepts config q)
    (herror : Plan.build schema config.metadata query = .error error) :
    Outcome schema config transport queries ⟨[], .error (.plan error)⟩
  /-- All queries are accepted and the transport fails. -/
  | failed {batch : Batch} {error : TransportError} (haccepts : ∀ q ∈ queries, schema.Accepts config q)
    (hbatch : (schema.compile config queries).result = .ok batch)
    (herror : transport batch.text batch.params = .error error) :
    Outcome schema config transport queries ⟨[batch], .error (.transport error)⟩
  /-- All queries are accepted and the transport returns too many or too few results. -/
  | miscounted {batch : Batch} {raw : List Json} (haccepts : ∀ q ∈ queries, schema.Accepts config q)
    (hbatch : (schema.compile config queries).result = .ok batch)
    (hraw : transport batch.text batch.params = .ok raw) (hcount : raw.length ≠ queries.length) :
    Outcome schema config transport queries ⟨[batch], .error (.resultCount queries.length raw.length)⟩
  /-- All queries are accepted, and each response is shaped from the result in its place. -/
  | answered {batch : Batch} {raw responses : List Json} (haccepts : ∀ q ∈ queries, schema.Accepts config q)
    (hbatch : (schema.compile config queries).result = .ok batch)
    (hraw : transport batch.text batch.params = .ok raw) (hcount : raw.length = queries.length)
    (hlength : responses.length = queries.length)
    (hplaces : ∀ (i : Nat) (rows : Json) (query : Query), raw[i]? = some rows → queries[i]? = some query →
      ∃ v, responses[i]? = some v ∧ query.assemble ⟨config.metadata, config.returnNulls⟩ schema rows = .ok v) :
    Outcome schema config transport queries ⟨[batch], .ok responses⟩

theorem outcome_run (schema : Schema) (config : Config) (transport : Transport) {queries : List Query}
    (hne : queries ≠ []) :
    schema.Outcome config transport queries (schema.run config transport queries).result := by
  unfold run
  rw [if_neg (by simpa using hne)]
  rcases accepts_or_refused schema config queries with
    haccepts | ⟨before, query, after, error, hqueries, hbefore, herror⟩
  · obtain ⟨batch, hbatch⟩ := compile_of_accepts haccepts
    have hcompile : schema.compile config queries = ⟨(schema.compile config queries).entries, .ok batch⟩ := by
      rw [← hbatch]
    rw [hcompile]
    dsimp only
    cases hraw : transport batch.text batch.params with
    | error error => exact .failed haccepts hbatch hraw
    | ok raw =>
      dsimp only
      by_cases hcount : raw.length = queries.length
      · obtain ⟨responses, hresponses, hlength, hplaces⟩ := assemble_of_accepts haccepts hcount
        rw [hresponses]
        exact .answered haccepts hbatch hraw hcount hlength hplaces
      · have hassemble : schema.assemble config raw queries = .error (.resultCount queries.length raw.length) := by
          unfold assemble
          rw [if_pos hcount]
        rw [hassemble]
        exact .miscounted haccepts hbatch hraw hcount
  · have hresult := compile_of_refused hbefore herror after
    rw [← hqueries] at hresult
    have hcompile : schema.compile config queries =
        ⟨(schema.compile config queries).entries, .error (.plan error)⟩ := by
      rw [← hresult]
    rw [hcompile]
    exact .refused hqueries hbefore herror

/-- A batch is sent exactly when all its queries are accepted. -/
theorem Outcome.length_sent_eq_one_iff {config : Config} {transport : Transport} {queries : List Query}
    {run : BatchRun} (h : schema.Outcome config transport queries run) :
    run.sent.length = 1 ↔ ∀ q ∈ queries, schema.Accepts config q := by
  cases h with
  | refused hqueries _ herror =>
    refine iff_of_false (by simp) fun haccepts => ?_
    obtain ⟨plan, hplan⟩ := haccepts _ (hqueries ▸ List.mem_append_right _ List.mem_cons_self)
    rw [herror] at hplan
    cases hplan
  | failed haccepts => exact iff_of_true rfl haccepts
  | miscounted haccepts => exact iff_of_true rfl haccepts
  | answered haccepts => exact iff_of_true rfl haccepts

/-- Shaping never fails for an accepted query.  So a batch is sent once if all its queries are accepted and otherwise
not at all, and a batch that is sent is answered unless the transport fails or miscounts. -/
theorem run_of_accepted (schema : Schema) :
    (∀ (metadata : Bool) (query : Query) (plan : Plan), Plan.build schema metadata query = .ok plan →
      ∀ (style : ResponseStyle) (raw : Json), ∃ v, query.assemble style schema raw = .ok v) ∧
      ∀ (config : Config) (transport : Transport) (queries : List Query), queries ≠ [] →
        ((schema.run config transport queries).result.sent.length = 1 ↔ ∀ q ∈ queries, schema.Accepts config q) ∧
          schema.Outcome config transport queries (schema.run config transport queries).result := by
  refine ⟨fun metadata query plan hplan style raw => Query.exists_assemble_of_build hplan style raw, ?_⟩
  intro config transport queries hne
  have houtcome := schema.outcome_run config transport hne
  exact ⟨houtcome.length_sent_eq_one_iff, houtcome⟩

/-- A raw result for `memberQuery` that is not what was asked for: lists in lists, a text as a row, a row without its
columns and with others. -/
def strangeResult : Json :=
  .array [.array [.object [("levels", .array [.object [("user", .null)], .bool true])]], .string "ada",
    .object [("$thing", .null), ("id", .array [])]]

theorem run_of_accepted_members :
    Plan.build memberSchema false memberQuery = .ok memberPlan ∧
      (∃ v, memberQuery.assemble {} memberSchema strangeResult = .ok v) ∧
      (memberSchema.run { metadata := false } (fun _ _ => .ok [strangeResult]) [memberQuery]).result.sent.length = 1 ∧
      (memberSchema.run { metadata := false } (fun _ _ => .ok [strangeResult])
        [memberQuery, { thing := "Ghost" }]).result.sent.length ≠ 1 := by
  have hbuild : Plan.build memberSchema false memberQuery = .ok memberPlan := rfl
  obtain ⟨hassemble, hrun⟩ := run_of_accepted memberSchema
  refine ⟨hbuild, hassemble false memberQuery memberPlan hbuild {} strangeResult, ?_, ?_⟩
  · refine (hrun _ _ _ (List.cons_ne_nil _ _)).1.2 fun q hq => ?_
    rw [List.mem_singleton.1 hq]
    exact ⟨memberPlan, hbuild⟩
  · intro hsent
    obtain ⟨plan, hplan⟩ := (hrun _ _ _ (List.cons_ne_nil _ _)).1.1 hsent { thing := "Ghost" } (by simp)
    cases hplan

end Schema

end ThingQuery
