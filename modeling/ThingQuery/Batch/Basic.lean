import ThingQuery.Batch.Config
import ThingQuery.Log
import ThingQuery.Plan.Access
import ThingQuery.Plan.Build
import ThingQuery.Plan.Explain
import ThingQuery.Response
import ThingQuery.Statement.Select

/-!
# Batches

Several queries are planned, written as one transaction with shared parameters, sent in one call, and their results are
shaped into responses by their place.  All that happens is reported as log entries.
-/

namespace ThingQuery

/-- Why a batch could not be sent or its answer not be read. -/
inductive TransportError where
  | execution (message : String)
  | decode (message : String)
  deriving DecidableEq

/-- The message of an error. -/
def TransportError.message : TransportError → String
  | .execution message => "Execution failed: " ++ message
  | .decode message => "Response could not be decoded: " ++ message

/-- Why a batch failed. -/
inductive BatchError where
  | plan (error : PlanError)
  | transport (error : TransportError)
  | response (error : ResponseError)
  /-- There are not as many results as queries. -/
  | resultCount (expected actual : Nat)

namespace BatchError

/-- The code of an error. -/
def code : BatchError → String
  | .plan error => error.code
  | .transport (.execution _) => "BQL_TRANSPORT_EXECUTION"
  | .transport (.decode _) => "BQL_TRANSPORT_DECODE"
  | .response error => error.code
  | .resultCount .. => "BQL_RESULT_COUNT_MISMATCH"

/-- The message of an error. -/
def message : BatchError → String
  | .plan error => error.display
  | .transport error => error.message
  | .response error => error.message
  | .resultCount expected actual =>
    "Transport returned " ++ toString actual ++ " results for " ++ toString expected ++ " statements"

end BatchError

/-- The statements of a batch and their shared parameters. -/
structure Batch where
  /-- The statements in the order of the queries. -/
  statements : List String
  params : Params

/-- The transaction that holds all statements of a batch. -/
def Batch.text (batch : Batch) : String :=
  "BEGIN TRANSACTION;" ++ String.join (batch.statements.map fun s => " " ++ s ++ ";") ++ " COMMIT TRANSACTION;"

/-- Writes the statements of plans one after the other, binding their values in addition to the given parameters. -/
def Plan.statements (params : Params) : List Plan → List String × Params
  | [] => ([], params)
  | plan :: rest =>
    let (statement, bound) := plan.statement params
    let (statements, after) := Plan.statements bound rest
    (statement :: statements, after)

/-- The batch of a list of plans. -/
def Batch.ofPlans (plans : List Plan) : Batch :=
  let (statements, params) := Plan.statements .empty plans
  ⟨statements, params⟩

/-- What sends a batch: it takes the text and the parameters and returns one result for each statement. -/
abbrev Transport := String → Params → Except TransportError (List Json)

/-- The outcome of running a batch, with everything that was sent. -/
structure BatchRun where
  sent : List Batch
  /-- The responses in the order of the queries. -/
  result : Except BatchError (List Json)

namespace Schema

/-- The plan of a query, optimized if the configuration says so. -/
def plan (schema : Schema) (config : Config) (query : Query) : Logged (Except PlanError Plan) :=
  match Plan.build schema config.metadata query with
  | .error error => ⟨[.ofEvent .queryRejected [("code", error.code), ("thing", query.thing)]], .error error⟩
  | .ok built =>
    let planned := LogEntry.ofEvent .queryPlanned
      [("access_path", built.source.accessPath), ("cardinality", built.cardinality.word), ("thing", built.thing)]
    if config.optimize then
      let better := built.optimize schema
      let optimized := LogEntry.ofEvent .queryOptimized
        [("after", better.source.accessPath), ("before", built.source.accessPath), ("thing", built.thing)]
      ⟨[planned, optimized], .ok better⟩
    else
      ⟨[planned], .ok built⟩

/-- The plans of queries up to the first that is refused. -/
def plans (schema : Schema) (config : Config) : List Query → Logged (Except PlanError (List Plan))
  | [] => ⟨[], .ok []⟩
  | query :: rest =>
    match schema.plan config query with
    | ⟨entries, .error error⟩ => ⟨entries, .error error⟩
    | ⟨entries, .ok first⟩ =>
      let ⟨later, others⟩ := schema.plans config rest
      ⟨entries ++ later, others.map (first :: ·)⟩

/-- What is told about a query. -/
def explain (schema : Schema) (config : Config) (query : Query) : Logged Explanation :=
  match schema.plan config query with
  | ⟨entries, .ok plan⟩ => ⟨entries, .accepted plan.summary⟩
  | ⟨entries, .error error⟩ => ⟨entries, .rejected error⟩

/-- The batch of a list of queries. -/
def compile (schema : Schema) (config : Config) (queries : List Query) : Logged (Except BatchError Batch) :=
  match schema.plans config queries with
  | ⟨entries, .error error⟩ => ⟨entries, .error (.plan error)⟩
  | ⟨entries, .ok plans⟩ =>
    let batch := Batch.ofPlans plans
    let compiled := LogEntry.ofEvent .batchCompiled
      [("params", toString batch.params.size), ("statements", toString batch.statements.length)]
    ⟨entries ++ [compiled], .ok batch⟩

/-- The responses to queries for their raw results, matched by their place. -/
def assemble (schema : Schema) (config : Config) (raw : List Json) (queries : List Query) :
    Except BatchError (List Json) :=
  if raw.length ≠ queries.length then .error (.resultCount queries.length raw.length)
  else
    let style : ResponseStyle := { metadata := config.metadata, returnNulls := config.returnNulls }
    ((raw.zip queries).mapM fun (rows, query) => Query.assemble style schema query rows).mapError .response

/-- Sends a batch of queries in one call and shapes the results. -/
def run (schema : Schema) (config : Config) (transport : Transport) (queries : List Query) : Logged BatchRun :=
  if queries.isEmpty then ⟨[], ⟨[], .ok []⟩⟩
  else
    match schema.compile config queries with
    | ⟨entries, .error error⟩ => ⟨entries, ⟨[], .error error⟩⟩
    | ⟨entries, .ok batch⟩ =>
      match transport batch.text batch.params with
      | .error error =>
        ⟨entries ++ [.ofEvent .batchFailed [("error", error.message)]], ⟨[batch], .error (.transport error)⟩⟩
      | .ok raw =>
        let executed := LogEntry.ofEvent .batchExecuted
          [("results", toString raw.length), ("statements", toString batch.statements.length)]
        match schema.assemble config raw queries with
        | .error error =>
          ⟨entries ++ [executed, .ofEvent .batchFailed [("code", error.code)]], ⟨[batch], .error error⟩⟩
        | .ok responses => ⟨entries ++ [executed], ⟨[batch], .ok responses⟩⟩

end Schema

end ThingQuery
