import Mathlib.Algebra.Ring.Nat
import ThingQuery.Proofs.Placeholders

/-!
# Queries of a batch are independent

Writing a fragment behind `k` bound values gives what writing it alone gives, with all placeholders renamed to numbers
that are greater by `k` (`Fragment.renamePlaceholders_write`).  So a query contributes to a batch what it contributes to
a batch of its own, behind the parameters of the queries before it (`Schema.getElem?_statements_of_accepts`).
-/

namespace ThingQuery

namespace Fragment

open Params (ofValues)

/-- The tokens are those of a fragment numbered from elsewhere on. -/
theorem map_shift_tokens (k n : Nat) (f : Fragment) : (f.tokens n).map (Token.shift k) = f.tokens (n + k) := by
  induction f generalizing n with
  | nil => rfl
  | cons piece rest ih =>
    cases piece with
    | text s =>
      have hchars : (s.toList.map Token.char).map (Token.shift k) = s.toList.map Token.char := by
        rw [List.map_map]
        rfl
      rw [tokens, List.map_append, hchars, ih, tokens]
    | value v =>
      have hplaceholder : (Token.placeholder (toString n).toList).shift k = .placeholder (toString (n + k)).toList := by
        rw [Token.shift]
        simp
      rw [tokens, List.map_cons, hplaceholder, ih, Nat.add_right_comm, tokens]

/-- The tokens spell what is written. -/
theorem flatMap_text_tokens (f : Fragment) (values : List Json) :
    (f.tokens values.length).flatMap Token.text = (write (ofValues values) f).1.toList := by
  induction f generalizing values with
  | nil => rfl
  | cons piece rest ih =>
    cases piece with
    | text s =>
      have hchars : (s.toList.map Token.char).flatMap Token.text = s.toList := by
        rw [List.flatMap_map]
        exact List.flatMap_singleton' _
      rw [tokens, List.flatMap_append, hchars, ih, write_text, String.toList_append]
    | value v =>
      have hrest := ih (values ++ [v])
      rw [List.length_append, List.length_singleton] at hrest
      rw [tokens, List.flatMap_cons, hrest, write_value, Params.bind_ofValues, String.toList_append]
      simp [Token.text, Params.key]

theorem renamePlaceholders_write {f : Fragment} (hf : IsQuiet f) (values : List Json) :
    renamePlaceholders values.length (write .empty f).1 = (write (ofValues values) f).1 := by
  have halone : ThingQuery.tokens (write .empty f).1 = f.tokens 0 := tokens_write hf []
  rw [renamePlaceholders, halone, ← List.flatMap_map, map_shift_tokens, Nat.zero_add, flatMap_text_tokens,
    String.ofList_toList]

end Fragment

namespace Plan

theorem length_statements (params : Params) (plans : List Plan) :
    (Plan.statements params plans).1.length = plans.length := by
  induction plans generalizing params with
  | nil => rfl
  | cons plan rest ih => exact congrArg (· + 1) (ih _)

/-- Each statement is written behind the literals of the plans before it. -/
theorem getElem?_statements {plans : List Plan} {i : Nat} {plan : Plan} (h : plans[i]? = some plan)
    (values : List Json) :
    (Plan.statements (.ofValues values) plans).1[i]? =
      some (plan.statement (.ofValues (values ++ (plans.take i).flatMap Plan.literals))).1 := by
  induction plans generalizing i values with
  | nil => cases h
  | cons first rest ih =>
    rw [Plan.statements_cons]
    cases i with
    | zero =>
      cases h
      simp
    | succ i =>
      rw [List.getElem?_cons_succ] at h
      rw [List.getElem?_cons_succ, ih h, List.take_succ_cons, List.flatMap_cons, List.append_assoc]

theorem getElem?_flatMap_literals {plans : List Plan} {i : Nat} {plan : Plan} (h : plans[i]? = some plan) {j : Nat}
    (hj : j < plan.literals.length) :
    (plans.flatMap Plan.literals)[j + ((plans.take i).flatMap Plan.literals).length]? = plan.literals[j]? := by
  obtain ⟨hi, rfl⟩ := List.getElem?_eq_some_iff.1 h
  have hsplit : plans.flatMap Plan.literals =
      (plans.take i).flatMap Plan.literals ++ (plans[i].literals ++ (plans.drop (i + 1)).flatMap Plan.literals) := by
    rw [← List.flatMap_cons, ← List.drop_eq_getElem_cons hi, ← List.flatMap_append, List.take_append_drop]
  rw [hsplit, List.getElem?_append_right (Nat.le_add_left _ _), Nat.add_sub_cancel, List.getElem?_append_left hj]

end Plan

/-! ### Batches -/

namespace Schema

variable {schema : Schema} {config : Config}

/-- The number of parameters of the batch of one query. -/
def paramCount (schema : Schema) (config : Config) (query : Query) : Nat :=
  match (schema.compile config [query]).result with
  | .ok batch => batch.params.size
  | .error _ => 0

theorem compile_singleton {query : Query} {plan : Plan} (h : (schema.plan config query).result = .ok plan) :
    (schema.compile config [query]).result = .ok ⟨[(plan.statement .empty).1], .ofValues plan.literals⟩ := by
  have hparams : (plan.statement .empty).2 = .ofValues plan.literals := plan.params_statement []
  rw [compile_of_forall₂ (.cons h .nil), ← hparams]
  rfl

theorem sum_paramCount {queries : List Query} {plans : List Plan}
    (h : List.Forall₂ (fun q plan => (schema.plan config q).result = .ok plan) queries plans) :
    (queries.map (schema.paramCount config)).sum = (plans.flatMap Plan.literals).length := by
  induction h with
  | nil => rfl
  | cons hplan _ ih =>
    rw [List.map_cons, List.sum_cons, ih, paramCount, compile_singleton hplan, List.flatMap_cons, List.length_append]
    exact congrArg (· + _) (Params.size_ofValues _)

/-- Accepted queries are written independently of each other.  The statement of each is that of the query alone with all
placeholders renamed, where their numbers grow by the number of parameters of the queries before it, each alone; and
under the renamed placeholders stand the same values. -/
theorem getElem?_statements_of_accepts {queries : List Query} (h : ∀ q ∈ queries, schema.Accepts config q) :
    ∃ batch, (schema.compile config queries).result = .ok batch ∧ batch.statements.length = queries.length ∧
      ∀ (i : Nat) (query : Query), queries[i]? = some query →
        ∃ alone s, (schema.compile config [query]).result = .ok alone ∧ alone.statements = [s] ∧
          batch.statements[i]? =
            some (renamePlaceholders ((queries.take i).map (schema.paramCount config)).sum s) ∧
          ∀ j < alone.params.size, ∃ v, alone.params.get? (Params.key j) = some v ∧
            batch.params.get? (Params.key (j + ((queries.take i).map (schema.paramCount config)).sum)) = some v := by
  obtain ⟨plans, hplans⟩ := forall₂_plan_of_accepts h
  refine ⟨_, compile_of_forall₂ hplans, ?_, ?_⟩
  · exact (Plan.length_statements .empty plans).trans hplans.length_eq.symm
  intro i query hquery
  obtain ⟨hi, rfl⟩ := List.getElem?_eq_some_iff.1 hquery
  have hiplan : i < plans.length := hplans.length_eq ▸ hi
  have hplan : plans[i]? = some plans[i] := List.getElem?_eq_getElem hiplan
  have hbuilt := (List.forall₂_iff_get.1 hplans).2 i hi hiplan
  have hcount := sum_paramCount (List.forall₂_take i hplans)
  refine ⟨_, _, compile_singleton hbuilt, rfl, ?_, fun j hj => ?_⟩
  · rw [hcount]
    have hrename := Fragment.renamePlaceholders_write plans[i].isQuiet_fragment ((plans.take i).flatMap Plan.literals)
    exact (Plan.getElem?_statements hplan []).trans (congrArg some hrename.symm)
  · have hj : j < plans[i].literals.length := (Params.size_ofValues plans[i].literals) ▸ hj
    refine ⟨plans[i].literals[j], ?_, ?_⟩
    · rw [(Params.numbers_ofValues _).get?]
      exact List.getElem?_eq_getElem hj
    · rw [hcount, Batch.params_ofPlans, (Params.numbers_ofValues _).get?, Plan.getElem?_flatMap_literals hplan hj]
      exact List.getElem?_eq_getElem hj

theorem getElem?_statements_of_accepts_lookalike :
    memberSchema.Accepts { metadata := false } lookalikeQuery ∧
      ∃ batch alone s,
        (memberSchema.compile { metadata := false } [lookalikeQuery, lookalikeQuery]).result = .ok batch ∧
        (memberSchema.compile { metadata := false } [lookalikeQuery]).result = .ok alone ∧ alone.statements = [s] ∧
        batch.statements[1]? = some (renamePlaceholders 2 s) ∧
        ∃ v, alone.params.get? "p1" = some v ∧ batch.params.get? "p3" = some v := by
  have haccepts : memberSchema.Accepts { metadata := false } lookalikeQuery := ⟨_, rfl⟩
  have hcount : memberSchema.paramCount { metadata := false } lookalikeQuery = 2 := by decide +kernel
  have hall : ∀ q ∈ [lookalikeQuery, lookalikeQuery], memberSchema.Accepts { metadata := false } q := by
    simpa using haccepts
  obtain ⟨batch, hbatch, _, hplaces⟩ := getElem?_statements_of_accepts hall
  obtain ⟨alone, s, halone, hs, hstatement, hvalues⟩ := hplaces 1 lookalikeQuery rfl
  have hsize : alone.params.size = 2 := by
    rw [paramCount, halone] at hcount
    exact hcount
  have hbefore :
      (([lookalikeQuery, lookalikeQuery].take 1).map (memberSchema.paramCount { metadata := false })).sum = 2 := by
    simpa using hcount
  rw [hbefore] at hstatement hvalues
  exact ⟨haccepts, batch, alone, s, hbatch, halone, hs, hstatement, hvalues 1 (by omega)⟩

end Schema

end ThingQuery
