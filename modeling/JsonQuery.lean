import JsonQuery.CommandLine.Command
import JsonQuery.CommandLine.Options
import JsonQuery.Decimal.Binary64
import JsonQuery.Decimal.Shortest
import JsonQuery.Decimal.Spelling
import JsonQuery.Entries
import JsonQuery.Json.Number
import JsonQuery.Json.Printer
import JsonQuery.Json.Reader
import JsonQuery.Main
import JsonQuery.Platform
import JsonQuery.Proofs.Decimal.Comparison
import JsonQuery.Proofs.Decimal.Doubles
import JsonQuery.Proofs.Decimal.Leading
import JsonQuery.Proofs.Decimal.Shortest
import JsonQuery.Proofs.Decimal.Spelling
import JsonQuery.Proofs.Entries
import JsonQuery.Proofs.Json.Colors
import JsonQuery.Proofs.Json.Concatenation
import JsonQuery.Proofs.Json.Containers
import JsonQuery.Proofs.Json.Controls
import JsonQuery.Proofs.Json.Decoding
import JsonQuery.Proofs.Json.Literals
import JsonQuery.Proofs.Json.Numerals
import JsonQuery.Proofs.Json.RoundTrip
import JsonQuery.Proofs.Json.Scalars
import JsonQuery.Proofs.Json.Spacing
import JsonQuery.Proofs.Json.Stability
import JsonQuery.Proofs.Json.Survival
import JsonQuery.Proofs.Query.Binding
import JsonQuery.Proofs.Query.BreakPositions
import JsonQuery.Proofs.Query.Breaks
import JsonQuery.Proofs.Query.Cursor
import JsonQuery.Proofs.Query.Expression.Addressing
import JsonQuery.Proofs.Query.Expression.Congruence
import JsonQuery.Proofs.Query.Expression.Construction
import JsonQuery.Proofs.Query.Expression.Filtering
import JsonQuery.Proofs.Query.Expression.Junctions
import JsonQuery.Proofs.Query.Expression.Mapping
import JsonQuery.Proofs.Query.Expression.Parts
import JsonQuery.Proofs.Query.Expression.Positions
import JsonQuery.Proofs.Query.Expression.Preservation
import JsonQuery.Proofs.Query.Expression.Propagation
import JsonQuery.Proofs.Query.Expression.Provenance
import JsonQuery.Proofs.Query.Expression.Recovery
import JsonQuery.Proofs.Query.Expression.Roles
import JsonQuery.Proofs.Query.Expression.Slices
import JsonQuery.Proofs.Query.Expression.Traversal
import JsonQuery.Proofs.Query.Failures
import JsonQuery.Proofs.Query.Grammar
import JsonQuery.Proofs.Query.Image
import JsonQuery.Proofs.Query.Layout
import JsonQuery.Proofs.Query.Lexing
import JsonQuery.Proofs.Query.Parser.Agreement
import JsonQuery.Proofs.Query.Parser.Calls
import JsonQuery.Proofs.Query.Parser.Rules
import JsonQuery.Proofs.Query.Parser.Shift
import JsonQuery.Proofs.Query.Parsing
import JsonQuery.Proofs.Query.Registrations
import JsonQuery.Proofs.Query.RoundTrip
import JsonQuery.Proofs.Query.Spelling
import JsonQuery.Proofs.Query.Tokens
import JsonQuery.Proofs.Query.Visits
import JsonQuery.Proofs.Query.WellFormed
import JsonQuery.Proofs.Stream.Delivery
import JsonQuery.Proofs.Stream.Layouts
import JsonQuery.Proofs.Stream.Limit
import JsonQuery.Proofs.Stream.Records
import JsonQuery.Proofs.Stream.Repetition
import JsonQuery.Proofs.Stream.Run
import JsonQuery.Proofs.Stream.Writer
import JsonQuery.Proofs.Template.Concatenation
import JsonQuery.Proofs.Template.Matching
import JsonQuery.Proofs.Template.Numerals
import JsonQuery.Proofs.Template.Padding
import JsonQuery.Proofs.Template.Scan
import JsonQuery.Proofs.Template.Substitution
import JsonQuery.Proofs.Text.ByteOrder
import JsonQuery.Proofs.Text.Classes
import JsonQuery.Proofs.Value.Equality
import JsonQuery.Proofs.Value.Inside
import JsonQuery.Proofs.Value.Order
import JsonQuery.Proofs.Value.Scalars
import JsonQuery.Proofs.Value.Sorted
import JsonQuery.Proofs.Value.Texts
import JsonQuery.Query.Builtin
import JsonQuery.Query.Compile
import JsonQuery.Query.Expression
import JsonQuery.Query.Node
import JsonQuery.Query.Parser
import JsonQuery.Query.Token
import JsonQuery.Query.Token.Lexer
import JsonQuery.Settings.Basic
import JsonQuery.Settings.Toml
import JsonQuery.Stream.Run
import JsonQuery.Stream.Writer
import JsonQuery.Template.Render
import JsonQuery.Template.Specifier
import JsonQuery.Text.Characters
import JsonQuery.Text.Quoted
import JsonQuery.Value
