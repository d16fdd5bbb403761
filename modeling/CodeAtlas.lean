import CodeAtlas.Catalog.Basic
import CodeAtlas.Catalog.Search
import CodeAtlas.Category
import CodeAtlas.CommandLine.Answer
import CodeAtlas.CommandLine.Grammar
import CodeAtlas.CommandLine.Output
import CodeAtlas.CommandLine.Request
import CodeAtlas.CommandLine.Run
import CodeAtlas.Display.Grid
import CodeAtlas.Error
import CodeAtlas.Extractor.Basic
import CodeAtlas.Extractor.Filter
import CodeAtlas.Extractor.Format
import CodeAtlas.Extractor.Launch
import CodeAtlas.Extractor.Process
import CodeAtlas.Extractor.Program
import CodeAtlas.Extractor.Script.Arithmetic
import CodeAtlas.Extractor.Script.Builtin
import CodeAtlas.Extractor.Script.Command
import CodeAtlas.Extractor.Script.Condition
import CodeAtlas.Extractor.Script.Pattern
import CodeAtlas.Extractor.Script.Run
import CodeAtlas.Extractor.Script.Shell
import CodeAtlas.Extractor.Script.Token
import CodeAtlas.Extractor.Workplace
import CodeAtlas.Fingerprint
import CodeAtlas.Graph.Edge
import CodeAtlas.Graph.Node
import CodeAtlas.Graph.Store
import CodeAtlas.Graph.Traversal
import CodeAtlas.Indexing.Refresh
import CodeAtlas.Indexing.Report
import CodeAtlas.Indexing.Run
import CodeAtlas.Indexing.Unit
import CodeAtlas.Inflection
import CodeAtlas.Json.Basic
import CodeAtlas.Json.Numeral
import CodeAtlas.Json.Parser
import CodeAtlas.Json.Printer
import CodeAtlas.Literal.Basic
import CodeAtlas.Literal.Reader
import CodeAtlas.Literal.Scan
import CodeAtlas.Main
import CodeAtlas.Number.Binary
import CodeAtlas.Number.Digits
import CodeAtlas.Outline.Basic
import CodeAtlas.Outline.Contract
import CodeAtlas.Outline.Line
import CodeAtlas.Outline.Reader
import CodeAtlas.Projection.Cache
import CodeAtlas.Projection.File
import CodeAtlas.Projection.Schema
import CodeAtlas.Projection.Unit
import CodeAtlas.Proofs.Catalog.Answers
import CodeAtlas.Proofs.Catalog.Ownership
import CodeAtlas.Proofs.Catalog.Shelf
import CodeAtlas.Proofs.Graph.Holding
import CodeAtlas.Proofs.Graph.Identity
import CodeAtlas.Proofs.Graph.Ledger
import CodeAtlas.Proofs.Graph.Neighborhood
import CodeAtlas.Proofs.Graph.Operation
import CodeAtlas.Proofs.Graph.Placeholder
import CodeAtlas.Proofs.Indexing.Backing
import CodeAtlas.Proofs.Indexing.Desk
import CodeAtlas.Proofs.Indexing.Fixpoint
import CodeAtlas.Proofs.Indexing.Interruption
import CodeAtlas.Proofs.Indexing.Leftovers
import CodeAtlas.Proofs.Indexing.Naming
import CodeAtlas.Proofs.Indexing.Paths
import CodeAtlas.Proofs.Indexing.Refreshing
import CodeAtlas.Proofs.Indexing.Scheduling
import CodeAtlas.Proofs.Indexing.Staleness
import CodeAtlas.Proofs.Indexing.Upkeep
import CodeAtlas.Proofs.Inflection
import CodeAtlas.Proofs.Inflection.RoundTrip
import CodeAtlas.Proofs.Json.Texts
import CodeAtlas.Proofs.Literal.Arguments
import CodeAtlas.Proofs.Outline.Collecting
import CodeAtlas.Proofs.Outline.Conventional
import CodeAtlas.Proofs.Outline.Lines
import CodeAtlas.Proofs.Outline.Reading
import CodeAtlas.Proofs.Outline.Recovery
import CodeAtlas.Proofs.Outline.Wording
import CodeAtlas.Proofs.Projection.Anchoring
import CodeAtlas.Proofs.Projection.Build
import CodeAtlas.Proofs.Projection.Cache
import CodeAtlas.Proofs.Projection.FileStatements
import CodeAtlas.Proofs.Projection.History
import CodeAtlas.Proofs.Projection.Location
import CodeAtlas.Proofs.Projection.Mirroring
import CodeAtlas.Proofs.Projection.Payload
import CodeAtlas.Proofs.Projection.Provenance
import CodeAtlas.Proofs.Projection.Pruning
import CodeAtlas.Proofs.Projection.Rebuild
import CodeAtlas.Proofs.Projection.Requiring
import CodeAtlas.Proofs.Projection.SchemaStatements
import CodeAtlas.Proofs.Projection.Statement
import CodeAtlas.Proofs.Projection.Tracing
import CodeAtlas.Proofs.Projection.Unit
import CodeAtlas.Proofs.Query.NextAction
import CodeAtlas.Proofs.Query.Reference
import CodeAtlas.Proofs.Schema.Reading
import CodeAtlas.Proofs.Schema.Rows
import CodeAtlas.Proofs.Sorting
import CodeAtlas.Proofs.Suggestion.Collision
import CodeAtlas.Proofs.Suggestion.Declaration
import CodeAtlas.Proofs.Suggestion.Pairing
import CodeAtlas.Proofs.Table
import CodeAtlas.Proofs.Text.Names
import CodeAtlas.Proofs.Text.Parts
import CodeAtlas.Proofs.Text.Utf8
import CodeAtlas.Proofs.Tree.Path
import CodeAtlas.Query.Explanation
import CodeAtlas.Query.Files
import CodeAtlas.Query.Ranking
import CodeAtlas.Query.Snippet
import CodeAtlas.Query.Status
import CodeAtlas.Query.Tables
import CodeAtlas.Schema.Basic
import CodeAtlas.Schema.Reader
import CodeAtlas.Schema.Statement
import CodeAtlas.Schema.Stored
import CodeAtlas.Settings
import CodeAtlas.Store
import CodeAtlas.Store.Snapshot
import CodeAtlas.Suggestion.Association
import CodeAtlas.Suggestion.Validation
import CodeAtlas.Symbol
import CodeAtlas.Text.Alphabet
import CodeAtlas.Text.Basic
import CodeAtlas.Text.Case
import CodeAtlas.Text.CodePoints
import CodeAtlas.Text.Quoted
import CodeAtlas.Text.Token
import CodeAtlas.Text.Utf8
import CodeAtlas.Text.Width
import CodeAtlas.Toml.Basic
import CodeAtlas.Toml.Parser
import CodeAtlas.Toml.Printer
import CodeAtlas.Toml.Scalar
import CodeAtlas.Tree.Basic
import CodeAtlas.Tree.Glob
import CodeAtlas.Tree.Ignore
import CodeAtlas.Tree.Path
import CodeAtlas.Tree.Walk
import CodeAtlas.Proofs.Outline.Ranges
import CodeAtlas.Proofs.Schema.Created
import CodeAtlas.Proofs.Graph.BreadthFirst
import CodeAtlas.Proofs.Json.Ordered
import CodeAtlas.Proofs.Outline.Fields
import CodeAtlas.Proofs.Outline.Contract
import CodeAtlas.Proofs.Json.Lookup
import CodeAtlas.Proofs.Outline.Starts
import CodeAtlas.Proofs.Outline.Shape
import CodeAtlas.Proofs.Projection.Lasting
import CodeAtlas.Proofs.Projection.LastWord
import CodeAtlas.Proofs.Projection.Repetition
import CodeAtlas.Proofs.Projection.SchemaEdges
import CodeAtlas.Proofs.Projection.Handover
import CodeAtlas.Proofs.Indexing.History
import CodeAtlas.Proofs.Indexing.Reanchoring
import CodeAtlas.Proofs.Literal.Faithful
import CodeAtlas.Proofs.Outline.Absolute
import CodeAtlas.Proofs.Outline.MethodNames
import CodeAtlas.Proofs.Outline.QuotedText
import CodeAtlas.Proofs.Projection.Rollback
import CodeAtlas.Proofs.Indexing.Counting
import CodeAtlas.Proofs.Catalog.Expression
import CodeAtlas.Proofs.Query.Confinement
import CodeAtlas.Proofs.Projection.Ordering
import CodeAtlas.Proofs.Query.Paging
import CodeAtlas.Proofs.Query.Ranking
import CodeAtlas.Proofs.Indexing.Accounting
import CodeAtlas.Proofs.Literal.Splitting
import CodeAtlas.Proofs.Schema.Grouping
