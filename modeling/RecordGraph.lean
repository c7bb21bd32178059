import RecordGraph.Calendar
import RecordGraph.Catalog
import RecordGraph.Config
import RecordGraph.Declaration
import RecordGraph.Declaration.Outline
import RecordGraph.Declaration.Token
import RecordGraph.Declaration.TypeText
import RecordGraph.Document
import RecordGraph.Document.Condition
import RecordGraph.Document.Declaration
import RecordGraph.Document.Reaction
import RecordGraph.Document.Record
import RecordGraph.Document.Setting
import RecordGraph.Document.Value
import RecordGraph.Error
import RecordGraph.Graph.Matching
import RecordGraph.Json
import RecordGraph.Json.Reader
import RecordGraph.Mapping.RowMapper
import RecordGraph.Mapping.Statements
import RecordGraph.Mapping.TableMap
import RecordGraph.Naming
import RecordGraph.Number.Binary
import RecordGraph.Number.Places
import RecordGraph.Number.Shortest
import RecordGraph.Postgres.Client
import RecordGraph.Postgres.Numeric
import RecordGraph.Postgres.SqlType
import RecordGraph.Postgres.Wire
import RecordGraph.Proofs.Catalog
import RecordGraph.Proofs.Catalog.Sharing
import RecordGraph.Proofs.Catalog.Shelf
import RecordGraph.Proofs.Declaration.Acceptance
import RecordGraph.Proofs.Declaration.Fields
import RecordGraph.Proofs.Declaration.Marks
import RecordGraph.Proofs.Graph.Changes
import RecordGraph.Proofs.Graph.Identity
import RecordGraph.Proofs.Graph.LinkChanges
import RecordGraph.Proofs.Graph.Membership
import RecordGraph.Proofs.Graph.Pairing
import RecordGraph.Proofs.Graph.Partition
import RecordGraph.Proofs.Json.Numerals
import RecordGraph.Proofs.Json.Rereading
import RecordGraph.Proofs.Json.Tidy
import RecordGraph.Proofs.Mapping.Addressed
import RecordGraph.Proofs.Mapping.Anomalies
import RecordGraph.Proofs.Mapping.Calls
import RecordGraph.Proofs.Mapping.Caps
import RecordGraph.Proofs.Mapping.ColumnOrder
import RecordGraph.Proofs.Mapping.Columns
import RecordGraph.Proofs.Mapping.History
import RecordGraph.Proofs.Mapping.KeyColumn
import RecordGraph.Proofs.Mapping.Masks
import RecordGraph.Proofs.Mapping.NestedKeys
import RecordGraph.Proofs.Mapping.Registration
import RecordGraph.Proofs.Mapping.RowMapper
import RecordGraph.Proofs.Mapping.Skipping
import RecordGraph.Proofs.Mapping.Statements
import RecordGraph.Proofs.Naming
import RecordGraph.Proofs.Number.Binary
import RecordGraph.Proofs.Number.Places
import RecordGraph.Proofs.Postgres.RoundTrip
import RecordGraph.Proofs.Postgres.Writing
import RecordGraph.Proofs.Record.FieldTable
import RecordGraph.Proofs.Record.InPlace
import RecordGraph.Proofs.Record.Key
import RecordGraph.Proofs.Record.Registrations
import RecordGraph.Proofs.Record.Shape
import RecordGraph.Proofs.Record.Slots
import RecordGraph.Proofs.Record.Typing
import RecordGraph.Proofs.Record.Writing
import RecordGraph.Proofs.Row
import RecordGraph.Proofs.Samples
import RecordGraph.Proofs.Session.Alignment
import RecordGraph.Proofs.Session.Alike
import RecordGraph.Proofs.Session.Awaiting
import RecordGraph.Proofs.Session.ChildTable
import RecordGraph.Proofs.Session.Children
import RecordGraph.Proofs.Session.Collections
import RecordGraph.Proofs.Session.Deletions
import RecordGraph.Proofs.Session.Edits
import RecordGraph.Proofs.Session.Follows
import RecordGraph.Proofs.Session.Inert
import RecordGraph.Proofs.Session.LinkKeys
import RecordGraph.Proofs.Session.Links
import RecordGraph.Proofs.Session.Loading
import RecordGraph.Proofs.Session.Master
import RecordGraph.Proofs.Session.Membership
import RecordGraph.Proofs.Session.OwnKeys
import RecordGraph.Proofs.Session.Progress
import RecordGraph.Proofs.Session.Queries
import RecordGraph.Proofs.Session.Relations
import RecordGraph.Proofs.Session.Requests
import RecordGraph.Proofs.Session.Rows
import RecordGraph.Proofs.Session.Runs
import RecordGraph.Proofs.Session.SaveOrder
import RecordGraph.Proofs.Session.SaveRuns
import RecordGraph.Proofs.Session.SaveSteps
import RecordGraph.Proofs.Session.Saved
import RecordGraph.Proofs.Session.Steps
import RecordGraph.Proofs.Session.Unchanged
import RecordGraph.Proofs.Session.Without
import RecordGraph.Proofs.Sql.Building
import RecordGraph.Proofs.Sql.Comparisons
import RecordGraph.Proofs.Sql.Faults
import RecordGraph.Proofs.Sql.Grammar
import RecordGraph.Proofs.Sql.Identifiers
import RecordGraph.Proofs.Sql.Inversion
import RecordGraph.Proofs.Sql.OuterText
import RecordGraph.Proofs.Sql.Predicates
import RecordGraph.Proofs.Sql.Rendering
import RecordGraph.Proofs.Sql.QuotedNames
import RecordGraph.Proofs.Sql.RowChanges
import RecordGraph.Proofs.Sql.RowLimit
import RecordGraph.Proofs.Sql.Scanning
import RecordGraph.Proofs.Sql.Spelling
import RecordGraph.Proofs.Sql.Uncapped
import RecordGraph.Proofs.Text.CamelCase
import RecordGraph.Proofs.Text.Words
import RecordGraph.Proofs.Uuid
import RecordGraph.Proofs.Value.Conversion
import RecordGraph.Proofs.Value.Equality
import RecordGraph.Proofs.Value.Lossless
import RecordGraph.Record
import RecordGraph.Record.Access
import RecordGraph.Record.FieldTable
import RecordGraph.Record.Identity
import RecordGraph.Record.Setting
import RecordGraph.Record.Type
import RecordGraph.Report
import RecordGraph.Row
import RecordGraph.Samples
import RecordGraph.Session
import RecordGraph.Session.Query
import RecordGraph.Session.Reading
import RecordGraph.Session.Saving
import RecordGraph.Session.Script
import RecordGraph.Sql.Condition
import RecordGraph.Sql.Dialect
import RecordGraph.Sql.Fragment
import RecordGraph.Sql.Ident
import RecordGraph.Sql.OrderBy
import RecordGraph.Sql.RowLimit
import RecordGraph.Text.CamelCase
import RecordGraph.Text.Letter
import RecordGraph.Text.Words
import RecordGraph.Uuid
import RecordGraph.Value
import RecordGraph.Value.Conversion
