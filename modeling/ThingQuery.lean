import ThingQuery.Batch.Basic
import ThingQuery.Batch.Config
import ThingQuery.Filter.Basic
import ThingQuery.Filter.Build
import ThingQuery.Filter.Cost
import ThingQuery.Filter.Lead
import ThingQuery.Filter.Normal
import ThingQuery.Json.Basic
import ThingQuery.Json.Decode
import ThingQuery.Json.Document
import ThingQuery.Json.Printer
import ThingQuery.Json.Token
import ThingQuery.Log
import ThingQuery.NameMap
import ThingQuery.Number.Binary64
import ThingQuery.Number.Decimal
import ThingQuery.Number.Magnitude
import ThingQuery.Number.Rounding
import ThingQuery.Plan.Access
import ThingQuery.Plan.Basic
import ThingQuery.Plan.Bounds
import ThingQuery.Plan.Build
import ThingQuery.Plan.Error
import ThingQuery.Plan.Explain
import ThingQuery.Proofs.Accepted
import ThingQuery.Proofs.Access
import ThingQuery.Proofs.Answered
import ThingQuery.Proofs.Answers
import ThingQuery.Proofs.Binding
import ThingQuery.Proofs.Cardinality
import ThingQuery.Proofs.Columnwise
import ThingQuery.Proofs.ConditionReading
import ThingQuery.Proofs.ConsistentStore
import ThingQuery.Proofs.CostOrder
import ThingQuery.Proofs.DeclaredThings
import ThingQuery.Proofs.Disclosure
import ThingQuery.Proofs.ExactBounds
import ThingQuery.Proofs.FaithfulConditions
import ThingQuery.Proofs.FilterEffects
import ThingQuery.Proofs.Gaps
import ThingQuery.Proofs.Grammar
import ThingQuery.Proofs.Grammatical
import ThingQuery.Proofs.Hops
import ThingQuery.Proofs.Independence
import ThingQuery.Proofs.IndexChoice
import ThingQuery.Proofs.KeptSource
import ThingQuery.Proofs.KeyLookup
import ThingQuery.Proofs.Leading
import ThingQuery.Proofs.Legibility
import ThingQuery.Proofs.Lexing
import ThingQuery.Proofs.Literals
import ThingQuery.Proofs.LogLines
import ThingQuery.Proofs.Meaning
import ThingQuery.Proofs.MissingParts
import ThingQuery.Proofs.NameReading
import ThingQuery.Proofs.NormalForm
import ThingQuery.Proofs.Numbering
import ThingQuery.Proofs.Placeholders
import ThingQuery.Proofs.ParameterCalls
import ThingQuery.Proofs.PointAccess
import ThingQuery.Proofs.PointerConditions
import ThingQuery.Proofs.Ranking
import ThingQuery.Proofs.ReorderedFilters
import ThingQuery.Proofs.ResponseKeys
import ThingQuery.Proofs.RowKeys
import ThingQuery.Proofs.RowOrder
import ThingQuery.Proofs.SameRows
import ThingQuery.Proofs.SameValues
import ThingQuery.Proofs.SingleRow
import ThingQuery.Proofs.SoundSchema
import ThingQuery.Proofs.Stability
import ThingQuery.Proofs.TidyFixpoint
import ThingQuery.Proofs.TextObjects
import ThingQuery.Proofs.Transaction
import ThingQuery.Proofs.TypedPlan
import ThingQuery.Proofs.Typing
import ThingQuery.Proofs.WritingOrder
import ThingQuery.Proofs.Written
import ThingQuery.Query.Basic
import ThingQuery.Query.Document
import ThingQuery.Response
import ThingQuery.Schema.Basic
import ThingQuery.Schema.Document
import ThingQuery.Schema.Validate
import ThingQuery.Statement.Condition
import ThingQuery.Statement.Fragment
import ThingQuery.Statement.Name
import ThingQuery.Statement.Params
import ThingQuery.Statement.Select
import ThingQuery.Store.Basic
import ThingQuery.Store.Execute
import ThingQuery.Store.Order
import ThingQuery.Store.Satisfies
