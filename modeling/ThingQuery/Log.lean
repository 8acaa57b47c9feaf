import ThingQuery.Json.Printer

/-!
# Log lines

One log entry is one line: a JSON object with the event, the severity and then the fields in the order of their keys.
Entries below the least severity are dropped; errors go to the error stream, all others to the output stream.
-/

namespace ThingQuery

/-- How serious a log entry is. -/
inductive Severity where
  | trace
  | info
  | warn
  | error
  deriving DecidableEq

namespace Severity

/-- The place in the order of severities. -/
def rank : Severity → Nat
  | .trace => 0
  | .info => 1
  | .warn => 2
  | .error => 3

/-- The word of a severity. -/
def word : Severity → String
  | .trace => "TRACE"
  | .info => "INFO"
  | .warn => "WARN"
  | .error => "ERROR"

/-- All severities in increasing order. -/
def all : List Severity := [.trace, .info, .warn, .error]

/-- The severity of a word. -/
def ofWord? (word : String) : Option Severity := all.find? (·.word == word)

/-- Whether entries of this severity are written when `least` is the least severity. -/
def enabled (least severity : Severity) : Bool := decide (least.rank ≤ severity.rank)

end Severity

/-- What can be reported about the handling of queries. -/
inductive Event where
  | schemaLoaded
  | queryPlanned
  | queryOptimized
  | queryRejected
  | batchCompiled
  | batchExecuted
  /-- Sending a batch or assembling its results failed. -/
  | batchFailed
  deriving DecidableEq

namespace Event

/-- The name of an event. -/
def name : Event → String
  | .schemaLoaded => "BQL_SCHEMA_LOADED"
  | .queryPlanned => "BQL_QUERY_PLANNED"
  | .queryOptimized => "BQL_QUERY_OPTIMIZED"
  | .queryRejected => "BQL_QUERY_REJECTED"
  | .batchCompiled => "BQL_BATCH_COMPILED"
  | .batchExecuted => "BQL_BATCH_EXECUTED"
  | .batchFailed => "BQL_BATCH_FAILED"

/-- The severity at which an event is logged. -/
def severity : Event → Severity
  | .queryPlanned | .queryOptimized => .trace
  | .schemaLoaded | .batchCompiled | .batchExecuted => .info
  | .queryRejected => .warn
  | .batchFailed => .error

/-- All events. -/
def all : List Event :=
  [.schemaLoaded, .queryPlanned, .queryOptimized, .queryRejected, .batchCompiled, .batchExecuted, .batchFailed]

/-- The event of a name. -/
def ofName? (name : String) : Option Event := all.find? (·.name == name)

end Event

/-- One log entry. -/
structure LogEntry where
  severity : Severity
  event : String
  fields : List (String × String)
  deriving DecidableEq

namespace LogEntry

/-- The entry of an event. -/
def ofEvent (event : Event) (fields : List (String × String)) : LogEntry :=
  ⟨event.severity, event.name, fields⟩

/-- The fields in the order of their keys; equal keys keep their order. -/
def sortedFields (entry : LogEntry) : List (String × String) :=
  entry.fields.mergeSort fun a b => decide (a.1 ≤ b.1)

/-- The written line with its line end. -/
def line (entry : LogEntry) : String :=
  "\x7b\"event\":" ++ Json.quote entry.event ++ ",\"severity\":\"" ++ entry.severity.word ++ "\""
    ++ String.join (entry.sortedFields.map fun (key, text) => "," ++ Json.quote key ++ ":" ++ Json.quote text)
    ++ "\x7d\n"

end LogEntry

/-- What was written to the two streams, line by line. -/
structure LogOutput where
  out : List String
  err : List String
  deriving DecidableEq

/-- The lines that a list of entries writes when `least` is the least severity. -/
def LogOutput.ofEntries (least : Severity) (entries : List LogEntry) : LogOutput :=
  let written := entries.filter fun e => least.enabled e.severity
  { out := (written.filter fun e => decide (e.severity ≠ .error)).map LogEntry.line
    err := (written.filter fun e => decide (e.severity = .error)).map LogEntry.line }

/-- A result together with the log entries that were made on the way. -/
structure Logged (α : Type) where
  entries : List LogEntry
  result : α

end ThingQuery
