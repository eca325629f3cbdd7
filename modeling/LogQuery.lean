import LogQuery.Calendar.Instant
import LogQuery.Calendar.Reading
import LogQuery.Cli.Command
import LogQuery.Cli.Help
import LogQuery.Cli.Run
import LogQuery.Command.Options
import LogQuery.Compile.Columns
import LogQuery.Compile.Condition
import LogQuery.Compile.Error
import LogQuery.Compile.Leaf
import LogQuery.Compile.Query
import LogQuery.Decimal.Binary64
import LogQuery.Decimal.Extended
import LogQuery.Decimal.Literal
import LogQuery.Decimal.Power
import LogQuery.Decimal.Shortest
import LogQuery.Engine.Channel
import LogQuery.Engine.Counts
import LogQuery.Engine.Query
import LogQuery.Engine.Scan
import LogQuery.Engine.Search
import LogQuery.Hub.Config
import LogQuery.Hub.Reply
import LogQuery.Hub.Service
import LogQuery.Hub.Socket
import LogQuery.Json.Printer
import LogQuery.Json.Reader
import LogQuery.Json.Syntax
import LogQuery.Json.Value
import LogQuery.Live.Broadcaster
import LogQuery.Live.Sink
import LogQuery.Live.Subscription
import LogQuery.Log.Lines
import LogQuery.Log.Resume
import LogQuery.Main
import LogQuery.Plan
import LogQuery.Predicate.Date
import LogQuery.Predicate.Field
import LogQuery.Predicate.Operator
import LogQuery.Predicate.Pattern
import LogQuery.Predicate.PatternSize
import LogQuery.Proofs.Cli.Values
import LogQuery.Proofs.Compile.Acceptance
import LogQuery.Proofs.Compile.Meaning
import LogQuery.Proofs.Compile.Membership
import LogQuery.Proofs.Compile.NumberLine
import LogQuery.Proofs.Compile.Projection
import LogQuery.Proofs.Compile.Select
import LogQuery.Proofs.Compile.TimeLine
import LogQuery.Proofs.Compile.WellFormed
import LogQuery.Proofs.Decimal.Monotone
import LogQuery.Proofs.Decimal.Rounding
import LogQuery.Proofs.Decimal.Shortest
import LogQuery.Proofs.Engine.Answers
import LogQuery.Proofs.Engine.Completeness
import LogQuery.Proofs.Engine.Counts
import LogQuery.Proofs.Engine.Emission
import LogQuery.Proofs.Engine.Genuine
import LogQuery.Proofs.Engine.Matches
import LogQuery.Proofs.Engine.Outcome
import LogQuery.Proofs.Engine.Progress
import LogQuery.Proofs.Engine.Pruning
import LogQuery.Proofs.Engine.Rotation
import LogQuery.Proofs.Engine.Scan
import LogQuery.Proofs.Engine.Stream
import LogQuery.Proofs.Engine.Values
import LogQuery.Proofs.Engine.Verbatim
import LogQuery.Proofs.Hub.Envelope
import LogQuery.Proofs.Hub.Framing
import LogQuery.Proofs.Json.Doubles
import LogQuery.Proofs.Json.Numbers
import LogQuery.Proofs.Json.Reading
import LogQuery.Proofs.Json.Rereading
import LogQuery.Proofs.Json.Unambiguity
import LogQuery.Proofs.Live.Accounting
import LogQuery.Proofs.Live.Agreement
import LogQuery.Proofs.Live.Broadcaster
import LogQuery.Proofs.Live.Isolation
import LogQuery.Proofs.Live.Subscription
import LogQuery.Proofs.Log.Cut
import LogQuery.Proofs.Log.Numbering
import LogQuery.Proofs.Log.Pieces
import LogQuery.Proofs.Log.Resume
import LogQuery.Proofs.Log.Retrying
import LogQuery.Proofs.Predicate.Dates
import LogQuery.Proofs.Predicate.Integers
import LogQuery.Proofs.Predicate.Pattern
import LogQuery.Proofs.Query.Delimited
import LogQuery.Proofs.Query.Joining
import LogQuery.Proofs.Query.Literals
import LogQuery.Proofs.Query.Lookup
import LogQuery.Proofs.Query.Marks
import LogQuery.Proofs.Query.Numbers
import LogQuery.Proofs.Query.Offsets
import LogQuery.Proofs.Query.Paths
import LogQuery.Proofs.Query.Refilling
import LogQuery.Proofs.Query.Restoring
import LogQuery.Proofs.Query.Unmarking
import LogQuery.Proofs.Record.Event
import LogQuery.Proofs.Record.Places
import LogQuery.Proofs.Record.Projected
import LogQuery.Proofs.Search.MatchRanges
import LogQuery.Proofs.Store.Beneath
import LogQuery.Proofs.Store.Lookup
import LogQuery.Proofs.Store.Pruning
import LogQuery.Proofs.Store.Sources
import LogQuery.Proofs.Store.Starts
import LogQuery.Proofs.Tail.Wrap
import LogQuery.Proofs.Text.Boundary
import LogQuery.Proofs.Text.Decoding
import LogQuery.Query.Marking
import LogQuery.Query.Piece
import LogQuery.Record.Line
import LogQuery.Record.Output
import LogQuery.Record.Path
import LogQuery.Search.MatchRanges
import LogQuery.Sql.Administration
import LogQuery.Sql.Alteration
import LogQuery.Sql.Change
import LogQuery.Sql.Column
import LogQuery.Sql.Copy
import LogQuery.Sql.Definition
import LogQuery.Sql.Expression
import LogQuery.Sql.Grammar
import LogQuery.Sql.Keyword
import LogQuery.Sql.Lexeme
import LogQuery.Sql.Lexer
import LogQuery.Sql.Query
import LogQuery.Sql.Routine
import LogQuery.Sql.RowPattern
import LogQuery.Sql.Select
import LogQuery.Sql.Session
import LogQuery.Sql.Statement
import LogQuery.Sql.Table
import LogQuery.Sql.TableDefinition
import LogQuery.Sql.Token
import LogQuery.Sql.Tree
import LogQuery.Sql.TypeName
import LogQuery.Store.FilePath
import LogQuery.Store.FileSystem
import LogQuery.Store.Sources
import LogQuery.Tail.Follow
import LogQuery.Tail.Wrap
import LogQuery.Text.Blank
import LogQuery.Text.CaseFold
import LogQuery.Text.Letter
import LogQuery.Text.Percent
import LogQuery.Text.Split
import LogQuery.Text.Terminator
import LogQuery.Text.Utf8
import LogQuery.Toml.Document
import LogQuery.Toml.Scalar
import LogQuery.Toml.Value
import LogQuery.Proofs.Json.Grammar
import LogQuery.Proofs.Hub.Reply
import LogQuery.Proofs.Hub.Socket
import LogQuery.Proofs.Tail.Follow
