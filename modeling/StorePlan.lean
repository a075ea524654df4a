import StorePlan.Aggregate.Basic
import StorePlan.Calendar
import StorePlan.Convention
import StorePlan.DataType.Basic
import StorePlan.DataType.Reading
import StorePlan.DataType.Record
import StorePlan.Document.Encoding
import StorePlan.Document.Error
import StorePlan.Document.Filter
import StorePlan.Document.Pipeline
import StorePlan.Document.Projection
import StorePlan.Json
import StorePlan.Json.Fields
import StorePlan.Json.Reading
import StorePlan.Number.Binary
import StorePlan.Number.Decimal
import StorePlan.Number.Scientific
import StorePlan.Number.Shortest
import StorePlan.Plan.Basic
import StorePlan.Plan.Build
import StorePlan.Plan.Error
import StorePlan.Plan.Explain
import StorePlan.Plan.Record
import StorePlan.Plan.Rewrite
import StorePlan.Predicate.Basic
import StorePlan.Predicate.Lowering
import StorePlan.Proofs.Outcome
import StorePlan.Proofs.Plan.Checks
import StorePlan.Proofs.Plan.Invariant
import StorePlan.Proofs.Predicate.Meaning
import StorePlan.Proofs.RowExpr.Meaning
import StorePlan.Proofs.Sql.CastTarget
import StorePlan.Proofs.Sql.Expression.Basic
import StorePlan.Proofs.Sql.Expression.Formula
import StorePlan.Proofs.Sql.Expression.Nesting
import StorePlan.Proofs.Sql.Expression.OfNode
import StorePlan.Proofs.Sql.Expression.ReadBack
import StorePlan.Proofs.Sql.Expression.Reading
import StorePlan.Proofs.Sql.Expression.RoundTrip
import StorePlan.Proofs.Sql.Expression.Stances
import StorePlan.Proofs.Sql.Expression.Agreement
import StorePlan.Proofs.Sql.Expression.Writing
import StorePlan.Proofs.Sql.Numeral
import StorePlan.Proofs.Sql.Phrase
import StorePlan.Proofs.Sql.Reading
import StorePlan.Proofs.Sql.Rendering
import StorePlan.Proofs.Sql.Report
import StorePlan.Proofs.Sql.Scanning
import StorePlan.Proofs.Sql.SetOperation.Outline
import StorePlan.Proofs.Sql.SetOperation.Outlining
import StorePlan.Proofs.Sql.SetOperation.ReadBack
import StorePlan.Proofs.Sql.SetOperation.Reading
import StorePlan.Proofs.Sql.SetOperation.RoundTrip
import StorePlan.Proofs.Sql.Wording
import StorePlan.Proofs.Truth
import StorePlan.RowExpr.Basic
import StorePlan.RowExpr.Record
import StorePlan.RowExpr.Structure
import StorePlan.Schema
import StorePlan.Settings.Basic
import StorePlan.Sql.CastTarget
import StorePlan.Sql.Dialect
import StorePlan.Sql.Error
import StorePlan.Sql.Lexeme
import StorePlan.Sql.Node
import StorePlan.Sql.Op
import StorePlan.Sql.Record
import StorePlan.Sql.Statement
import StorePlan.Sql.Token
import StorePlan.Sql.Writing
import StorePlan.Text.Blank
import StorePlan.Text.Invisible
import StorePlan.Text.Numeral
import StorePlan.Text.Structural
import StorePlan.Text.UpperCase
import StorePlan.Value.Basic
import StorePlan.Value.Coercion
import StorePlan.VectorStore.Datum
import StorePlan.VectorStore.Error
import StorePlan.VectorStore.Filter
import StorePlan.VectorStore.Neighbours
import StorePlan.VectorStore.Request
import StorePlan.Proofs.Plan.Nullability
import StorePlan.Proofs.Plan.Rewriting
import StorePlan.Proofs.Value.Coercion
import StorePlan.Proofs.Emission.Document
import StorePlan.Proofs.Emission.VectorStore
import StorePlan.Proofs.Emission.Foreseen
import StorePlan.Proofs.Sql.Alignment
import StorePlan.Proofs.Sql.Quoting
import StorePlan.Proofs.Plan.Paging
import StorePlan.Proofs.Plan.Rows
import StorePlan.Proofs.Predicate.Literals
import StorePlan.Proofs.VectorStore.Draft
import StorePlan.Proofs.VectorStore.Paging
import StorePlan.Proofs.VectorStore.FilterMeaning
import StorePlan.Proofs.VectorStore.PushDown
import StorePlan.Proofs.Document.Decoding
import StorePlan.Proofs.Document.Store
import StorePlan.Proofs.Document.Match
import StorePlan.Proofs.Document.StageFields
import StorePlan.Proofs.Document.FieldNames
import StorePlan.Proofs.Document.Evaluation
import StorePlan.Proofs.Document.Grouping
import StorePlan.Proofs.Predicate.Attributes
import StorePlan.Proofs.VectorStore.FilterTree
import StorePlan.Proofs.VectorStore.Provenance
import StorePlan.Proofs.Plan.AggregateAcceptance
import StorePlan.Proofs.DataType.RoundTrip
import StorePlan.Proofs.Sql.FromClause.Joined
import StorePlan.Proofs.Sql.FromClause.Reading
import StorePlan.Proofs.Sql.FromClause.RoundTrip
import StorePlan.Proofs.Sql.Parameters.Order
import StorePlan.Proofs.Sql.Parameters.Holding
import StorePlan.Proofs.Sql.Parameters.Placeholders
import StorePlan.Proofs.Aggregate.Classification
import StorePlan.Proofs.Predicate.Fragment
import StorePlan.Proofs.Predicate.Untyped
import StorePlan.Proofs.Number.Rounding
import StorePlan.Proofs.Value.Exactness
import StorePlan.Proofs.Value.Places
import StorePlan.Proofs.Sql.Weaving
import StorePlan.Proofs.Sql.Sources.Basic
import StorePlan.Proofs.Sql.Sources.Naming
import StorePlan.Proofs.Sql.Sources.Aliases
import StorePlan.Proofs.Sql.Sources.Clashes
import StorePlan.Proofs.VectorStore.RoundTrip
import StorePlan.Proofs.VectorStore.NeighbourCount
import StorePlan.Proofs.Sql.ArrayTarget
import StorePlan.Proofs.Sql.Parts
import StorePlan.Proofs.Sql.NestedAggregates
import StorePlan.Proofs.Sql.Unquoted
import StorePlan.Proofs.Sql.Comments
import StorePlan.Proofs.Sql.DecimalTarget
import StorePlan.Proofs.Document.Regex
import StorePlan.Proofs.Document.LikePattern
import StorePlan.Proofs.Document.SortOrder
import StorePlan.Proofs.Text.UpperCase
import StorePlan.Proofs.DataType.Faults
import StorePlan.Proofs.Value.Conformance
import StorePlan.Proofs.Plan.Conformance
import StorePlan.Proofs.DataType.Spelling
import StorePlan.Proofs.Value.Finite
import StorePlan.Proofs.Sql.NumberText
import StorePlan.Proofs.Sql.LiteralText
import StorePlan.Proofs.Text.Runs
import StorePlan.Proofs.Number.Shortest
import StorePlan.Proofs.Number.Text
import StorePlan.Proofs.Number.Widening
import StorePlan.Proofs.Json.Text
import StorePlan.Proofs.Calendar
import StorePlan.Proofs.Document.Encoding
import StorePlan.Proofs.VectorStore.Attributes
import StorePlan.Proofs.VectorStore.SortKeys
import StorePlan.Proofs.Sql.Windows
import StorePlan.Proofs.DataType.Arithmetic
import StorePlan.Proofs.RowExpr.Arithmetic
