import ThingQuery.Proofs.Answered
import ThingQuery.Proofs.Written

/-!
# Statements stay in their transaction

A neutral text up to a semicolon is split off as it is (`splitStatements_append`).  Statements are neutral, whatever
their names and labels are, so the text of a batch is split into the opening statement, the statements of the queries,
and the closing statement, and the brackets of each match (`Schema.splitStatements_text_of_accepts`).
-/

namespace ThingQuery

theorem splitStatements_append {s : String} (h : Neutral s) (rest : String) :
    splitStatements (s ++ (";" ++ rest)) = s :: splitStatements rest := by
  have hsemicolon : Closed ";" := rfl
  have hlex : lex (s ++ (";" ++ rest)) = lex s ++ .plain ';' :: lex rest := by
    rw [lex_append h.closed, lex_append hsemicolon]
    rfl
  have hunbroken : ∀ lexeme ∈ lex s, (lexeme == .plain ';') = false := by
    intro lexeme hmem
    simpa using List.all_eq_true.1 (h []).unbroken lexeme hmem
  unfold splitStatements
  rw [hlex, List.splitOnP_append_cons_of_forall_mem hunbroken _ (by decide), List.map_cons, map_char_lex,
    String.ofList_toList]

/-- A transaction is split into its statements. -/
theorem Batch.splitStatements_text {batch : Batch} (h : ∀ s ∈ batch.statements, Neutral s) :
    splitStatements batch.text =
      "BEGIN TRANSACTION" :: (batch.statements.map (" " ++ ·) ++ [" COMMIT TRANSACTION", ""]) := by
  have hbegin : Neutral "BEGIN TRANSACTION" := fun _ => turns_ofList rfl rfl rfl
  have hcommit : Neutral " COMMIT TRANSACTION" := fun _ => turns_ofList rfl rfl rfl
  have hspace : Neutral " " := fun _ => turns_ofList rfl rfl rfl
  have hstatements : ∀ statements : List String, (∀ s ∈ statements, Neutral s) → ∀ rest,
      splitStatements (String.join (statements.map fun s => " " ++ s ++ ";") ++ rest) =
        statements.map (" " ++ ·) ++ splitStatements rest := by
    intro statements hneutral rest
    induction statements with
    | nil => simp
    | cons s others ih =>
      rw [List.forall_mem_cons] at hneutral
      rw [List.map_cons, String.join_cons, String.append_assoc, String.append_assoc,
        splitStatements_append (hspace.append hneutral.1), ih hneutral.2]
      rfl
  have hfirst : "BEGIN TRANSACTION;" = "BEGIN TRANSACTION" ++ ";" := by simp
  have hlast : " COMMIT TRANSACTION;" = " COMMIT TRANSACTION" ++ (";" ++ "") := by simp
  unfold Batch.text
  rw [hfirst, String.append_assoc, String.append_assoc, splitStatements_append hbegin, hstatements _ h, hlast,
    splitStatements_append hcommit]
  rfl

namespace Plan

theorem neutral_of_mem_statements (plans : List Plan) (params : Params) :
    ∀ s ∈ (Plan.statements params plans).1, Neutral s := by
  induction plans generalizing params with
  | nil => simp [Plan.statements]
  | cons plan rest ih => exact List.forall_mem_cons.2 ⟨plan.neutral_statement params, ih _⟩

/-- The statements of plans are in the order of the plans. -/
theorem forall₂_statements {α : Type} {R : α → Plan → Prop} {queries : List α} {plans : List Plan}
    (h : List.Forall₂ R queries plans) (params : Params) :
    List.Forall₂ (fun q s => ∃ plan before, R q plan ∧ s = (plan.statement before).1) queries
      (Plan.statements params plans).1 := by
  induction h generalizing params with
  | nil => exact .nil
  | cons hplan _ ih => exact .cons ⟨_, params, hplan, rfl⟩ (ih _)

end Plan

namespace Schema

/-- Whatever the names and labels in accepted queries are, their batch is split at the semicolons outside of quoted
names into the opening statement, one statement for each query and the closing statement, and in each of them the
brackets outside of quoted names match. -/
theorem splitStatements_text_of_accepts {schema : Schema} {config : Config} {queries : List Query}
    (h : ∀ q ∈ queries, schema.Accepts config q) :
    ∃ batch, (schema.compile config queries).result = .ok batch ∧
      splitStatements batch.text =
        "BEGIN TRANSACTION" :: (batch.statements.map (" " ++ ·) ++ [" COMMIT TRANSACTION", ""]) ∧
      List.Forall₂ (fun q s => ∃ plan params, (schema.plan config q).result = .ok plan ∧ s = (plan.statement params).1)
        queries batch.statements ∧
      ∀ s ∈ batch.statements, Balanced s := by
  obtain ⟨plans, hplans⟩ := forall₂_plan_of_accepts h
  have hneutral : ∀ s ∈ (Batch.ofPlans plans).statements, Neutral s := Plan.neutral_of_mem_statements plans .empty
  refine ⟨_, compile_of_forall₂ hplans, Batch.splitStatements_text hneutral, ?_, fun s hs => (hneutral s hs).balanced⟩
  exact Plan.forall₂_statements hplans .empty

/-- The levels of the memberships under a label that looks like the end of a statement and the start of another. -/
def hostileQuery : Query where
  thing := "User"
  selection := .only
    [.field "name", .nested "members" (some "x⟩); REMOVE TABLE User; \\") {} (.only [.field "level"])]

theorem splitStatements_text_of_accepts_hostile :
    memberSchema.Accepts { metadata := false } hostileQuery ∧
      ∃ batch s, (memberSchema.compile { metadata := false } [hostileQuery]).result = .ok batch ∧
        batch.statements = [s] ∧
        splitStatements batch.text = ["BEGIN TRANSACTION", " " ++ s, " COMMIT TRANSACTION", ""] ∧ Balanced s := by
  have haccepts : memberSchema.Accepts { metadata := false } hostileQuery := ⟨_, rfl⟩
  obtain ⟨batch, hcompile, hsplit, hstatements, hbalanced⟩ :=
    splitStatements_text_of_accepts (List.forall_mem_singleton.2 haccepts)
  obtain ⟨s, _, _, hnil, heq⟩ := List.forall₂_cons_left_iff.1 hstatements
  cases List.forall₂_nil_left_iff.1 hnil
  rw [heq] at hsplit hbalanced
  exact ⟨haccepts, batch, s, hcompile, heq, hsplit, hbalanced s List.mem_cons_self⟩

end Schema

end ThingQuery
