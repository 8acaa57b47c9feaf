import ThingQuery.Proofs.Hops
import ThingQuery.Proofs.Meaning
import ThingQuery.Proofs.SoundSchema
import ThingQuery.Store.Execute

/-!
# Plans that keep their source

When a better plan gets its rows from the same source, it returns exactly the same: the same rows in the same order,
with the same values in every nested column (`execute_optimize_of_source_eq`).  This needs nothing of the store, since
only filters are rewritten, and their meaning is kept.
-/

namespace ThingQuery

/-! ### Tidy filters -/

theorem Store.satisfies_reorderFor (store : Store) (schema : Schema) (thing : String) (filter : Filter)
    (record : Json) : store.satisfies (filter.reorderFor schema thing) record = store.satisfies filter record := by
  unfold Filter.reorderFor
  split
  · exact store.satisfies_reorder record _ filter
  · rfl

theorem Store.filter_eq_self_of_isTruthy (store : Store) {filter : Filter} (h : filter.normalize.isTruthy = true)
    (rows : List Row) : (rows.filter fun row => store.satisfies filter row.record) = rows := by
  refine List.filter_eq_self.2 fun row _ => ?_
  rw [← store.satisfies_normalize]
  exact store.satisfies_of_isTruthy row.record h

theorem Store.retain_tidy? (store : Store) (schema : Schema) (thing : String) (filter : Option Filter)
    (rows : List Row) :
    store.retain (filter.bind (Filter.tidy? schema thing)) rows = store.retain filter rows := by
  cases filter with
  | none => rfl
  | some f =>
    rw [Option.bind_some]
    unfold Filter.tidy?
    dsimp only
    split
    · rename_i htruthy
      exact (store.filter_eq_self_of_isTruthy htruthy rows).symm
    · simp only [retain, store.satisfies_reorderFor, store.satisfies_normalize]

/-! ### Tidy columns -/

namespace Column

theorem tidyAll_eq_map (schema : Schema) (columns : List Column) :
    tidyAll schema columns = columns.map (tidy schema) := by
  induction columns with
  | nil => rfl
  | cons c rest ih => rw [tidyAll, ih, List.map_cons]

theorem outputKey_tidy (schema : Schema) (column : Column) : (column.tidy schema).outputKey = column.outputKey := by
  cases column <;> rfl

theorem path?_tidy (schema : Schema) (column : Column) : (column.tidy schema).path? = column.path? := by
  cases column <;> rfl

end Column

theorem sortColumn_tidyAll (schema : Schema) (field : String) (columns : List Column) :
    sortColumn field (Column.tidyAll schema columns) = sortColumn field columns := by
  rw [Column.tidyAll_eq_map]
  exact sortColumn_map (Column.outputKey_tidy schema) (Column.path?_tidy schema) field columns

namespace Store

theorem shape_tidyAll (schema : Schema) {project project' : Row → List (String × Json)} (h : project' = project)
    (columns : List Column) (sort : List SortKey) (limit offset : Option Nat) (rows : List Row) :
    shape project' (Column.tidyAll schema columns) sort limit offset rows =
      shape project columns sort limit offset rows := by
  subst h
  simp only [shape, sortColumn_tidyAll]

variable (store : Store) (schema : Schema)

mutual

theorem columnValue?_tidy (column : Column) :
    ∀ row, store.columnValue? (column.tidy schema) row = store.columnValue? column row := by
  intro row
  match column with
  | .metadata field label => rfl
  | .data path label => rfl
  | .reference path label cardinality tunnel => rfl
  | .flex path label cardinality => rfl
  | .nested scope columns =>
    have hproject := projectRow_tidyAll columns
    simp only [Column.tidy, columnValue?, store.retain_tidy?, shape_tidyAll schema (funext hproject)]

theorem projectRow_tidyAll (columns : List Column) :
    ∀ row, store.projectRow (Column.tidyAll schema columns) row = store.projectRow columns row := by
  intro row
  match columns with
  | [] => rfl
  | c :: rest =>
    rw [Column.tidyAll, projectRow, projectRow, columnValue?_tidy c row, columnValues_tidyAll rest row,
      Column.outputKey_tidy]

theorem columnValues_tidyAll (columns : List Column) :
    ∀ row, store.columnValues (Column.tidyAll schema columns) row = store.columnValues columns row := by
  intro row
  match columns with
  | [] => rfl
  | c :: rest =>
    rw [Column.tidyAll, columnValues, columnValues, columnValue?_tidy c row, columnValues_tidyAll rest row,
      Column.outputKey_tidy]

end

end Store

/-! ### Kept sources -/

theorem Schema.ne_scan_of_improveScan? {schema : Schema} {way : Thing → Filter → Option Access} {thing : String}
    {tables : List String} {filter : Filter} {access : Access}
    (h : schema.improveScan? way thing tables filter = some access) (tables' : List String) :
    access.1 ≠ .scan tables' := by
  obtain ⟨first, rest, _, hsource | hsource, _⟩ := Schema.improveScan?_eq_some h
  · rcases Source.pointLookup?_eq_some hsource with ⟨_, _, he⟩ | ⟨_, _, _, _, he⟩
    · rw [he]
      exact Source.noConfusion
    · rw [he]
      exact Source.noConfusion
  · rcases Schema.traversal?_cases hsource with
      ⟨_, _, _, _, _, _, _, _, _, _, _, _, _, _, he⟩ | ⟨_, _, _, _, _, _, _, _, _, _, _, he⟩
    · rw [he]
      exact Source.noConfusion
    · rw [he]
      exact Source.noConfusion

/-- Only a scan is given up for a better way. -/
theorem Plan.source_optimize_of_ne_scan (schema : Schema) {plan : Plan} (h : ∀ tables, plan.source ≠ .scan tables) :
    (plan.optimize schema).source = plan.source := by
  rw [Plan.optimize_eq]
  rcases schema.improveWith_cases schema.follow plan.thing plan.source plan.filter with
    ⟨_, he⟩ | ⟨_, _, _, he, _⟩ | ⟨_, tables, _, _, _, _, hscan, _⟩
  · rw [he]
  · rw [he]
  · exact absurd hscan (h tables)

/-- A plan whose source is kept keeps the same rows in the same order. -/
theorem Store.planRows_optimize_of_source_eq (store : Store) {schema : Schema} {plan : Plan}
    (h : (plan.optimize schema).source = plan.source) :
    store.planRows (plan.optimize schema) = store.planRows plan := by
  unfold Store.planRows
  rw [h]
  rw [Plan.optimize_eq] at h ⊢
  dsimp only at h ⊢
  rcases schema.improveWith_cases schema.follow plan.thing plan.source plan.filter with
    ⟨htruthy, he⟩ | ⟨f, hf, _, he, _⟩ | ⟨f, tables, start, access, hf, _, hscan, _, hbetter, he⟩
  · rw [he]
    cases hf : plan.filter with
    | none => rfl
    | some f => exact (store.filter_eq_self_of_isTruthy (htruthy f hf) _).symm
  · rw [he, hf]
    simp only [Store.retain, store.satisfies_reorderFor, store.satisfies_normalize]
  · rw [he, hscan] at h
    exact absurd h (Schema.ne_scan_of_improveScan? hbetter tables)

/-- A plan returns the same when its rows are the same and its columns are tidy. -/
theorem Store.execute_optimize_of_planRows_eq (store : Store) {schema : Schema} {plan : Plan}
    (h : store.planRows (plan.optimize schema) = store.planRows plan) :
    store.execute (plan.optimize schema) = store.execute plan := by
  unfold Store.execute
  rw [h, Plan.optimize_eq]
  dsimp only
  rw [Store.shape_tidyAll schema (funext (store.projectRow_tidyAll schema plan.columns))]

/-- A better plan that keeps its source returns exactly what the plan returns, on every store; and a plan that looks up
keys or starts from the other end of a relationship keeps its source. -/
theorem Store.execute_optimize_of_source_eq (schema : Schema) (plan : Plan) :
    ((plan.optimize schema).source = plan.source →
      ∀ store : Store, store.execute (plan.optimize schema) = store.execute plan) ∧
    ((∀ tables, plan.source ≠ .scan tables) → (plan.optimize schema).source = plan.source) := by
  constructor
  · intro h store
    exact store.execute_optimize_of_planRows_eq (store.planRows_optimize_of_source_eq h)
  · exact Plan.source_optimize_of_ne_scan schema

/-- All users of one name with their memberships of a level other than gold, written in a roundabout way. -/
def roundaboutPlan (source : Source) : Plan where
  thing := "User"
  source
  columns :=
    [.data "name" none,
     .nested ⟨"members", none, "Member", none, some (.not (.list .isIn "level" [.string "gold"])), .many, some 3, none,
       [⟨"level", .descending⟩], none⟩ [.data "level" none]]
  filter := some (.not (.not (.list .isIn "name" [.string "ada"])))
  limit := some 10
  offset := some 1
  sort := [⟨"name", .ascending⟩]
  cardinality := .many

theorem Store.execute_optimize_of_source_eq_roundabout :
    ((roundaboutPlan (.scan ["User"])).optimize memberSchema).source = .scan ["User"] ∧
      (∀ store : Store, store.execute ((roundaboutPlan (.scan ["User"])).optimize memberSchema) =
        store.execute (roundaboutPlan (.scan ["User"]))) ∧
      ∀ store : Store, store.execute ((roundaboutPlan (.pointer ["User"] ["u1"])).optimize memberSchema) =
        store.execute (roundaboutPlan (.pointer ["User"] ["u1"])) := by
  have hscan := execute_optimize_of_source_eq memberSchema (roundaboutPlan (.scan ["User"]))
  have hpointer := execute_optimize_of_source_eq memberSchema (roundaboutPlan (.pointer ["User"] ["u1"]))
  exact ⟨rfl, hscan.1 rfl, hpointer.1 (hpointer.2 (fun _ h => nomatch h))⟩

end ThingQuery
