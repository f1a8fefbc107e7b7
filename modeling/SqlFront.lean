import SqlFront.Command
import SqlFront.Command.Dispatch
import SqlFront.Command.Script
import SqlFront.Command.Value
import SqlFront.CommandLine
import SqlFront.CommandLine.Arguments
import SqlFront.CommandLine.Outcome
import SqlFront.Cursor
import SqlFront.Failure
import SqlFront.Fault
import SqlFront.Files
import SqlFront.Files.Path
import SqlFront.Files.Tree
import SqlFront.Grammar.Constant
import SqlFront.Grammar.Expression
import SqlFront.Grammar.Name
import SqlFront.Grammar.Nesting
import SqlFront.Grammar.Query
import SqlFront.Grammar.Statement
import SqlFront.Json
import SqlFront.Json.Command
import SqlFront.Json.Token
import SqlFront.Json.Tree
import SqlFront.Keyword
import SqlFront.Main
import SqlFront.MergeRows
import SqlFront.Number.Double
import SqlFront.Number.Shortest
import SqlFront.Number.Whole
import SqlFront.Parse
import SqlFront.Position
import SqlFront.Production
import SqlFront.Proofs.Reading.Reads
import SqlFront.Proofs.Reading.Tape
import SqlFront.Proofs.Tokens.Measure
import SqlFront.Proofs.Tokens.Place
import SqlFront.Proofs.Tokens.Tiling
import SqlFront.Report
import SqlFront.Scan.Filter
import SqlFront.Settings
import SqlFront.Settings.File
import SqlFront.Settings.Load
import SqlFront.Settings.Variable
import SqlFront.Shell
import SqlFront.Shell.Completion
import SqlFront.Text.Blank
import SqlFront.Text.Glyph
import SqlFront.Text.Quoted
import SqlFront.Text.Split
import SqlFront.Token
import SqlFront.Token.Complete
import SqlFront.Token.Iterator
import SqlFront.Token.Match
import SqlFront.Token.Next
import SqlFront.Token.Stream
import SqlFront.Toml
import SqlFront.Toml.Document
import SqlFront.Toml.Moment
import SqlFront.Toml.Scalar
import SqlFront.Tree
import SqlFront.Proofs.Grammar.Rules
import SqlFront.Proofs.Grammar.QueryRules
import SqlFront.Proofs.Grammar.ExpressionObeys
import SqlFront.Proofs.Grammar.QueryObeys
import SqlFront.Proofs.Grammar.StatementObeys
import SqlFront.Proofs.Grammar.Parts
import SqlFront.Proofs.Tokens.Order
import SqlFront.Proofs.Grammar.Precedence
import SqlFront.Proofs.Reading.Follows
import SqlFront.Proofs.Grammar.Follows
import SqlFront.Proofs.Grammar.ExpressionFollows
import SqlFront.Proofs.Grammar.QueryFollows
import SqlFront.Proofs.Nesting.Openings
import SqlFront.Proofs.Nesting.Heights
import SqlFront.Proofs.Grammar.StatementFollows
import SqlFront.Proofs.Nesting.Limit
import SqlFront.Proofs.Printing.Spacing
import SqlFront.Proofs.Printing.Words
import SqlFront.Proofs.Printing.Leaves
import SqlFront.Proofs.Printing.Reading
import SqlFront.Proofs.Printing.Primaries
import SqlFront.Proofs.Printing.Operators
import SqlFront.Proofs.Printing.RoundTrip
import SqlFront.Proofs.Printing.Selections
import SqlFront.Proofs.Grammar.Regions
import SqlFront.Proofs.Reading.Lookahead
import SqlFront.Proofs.Tokens.Longest
import SqlFront.Proofs.Grammar.Beginnings
import SqlFront.Proofs.Grammar.Scripts
import SqlFront.Proofs.Grammar.Layout
import SqlFront.Proofs.Grammar.Alone
import SqlFront.Proofs.Grammar.Consumption
import SqlFront.Proofs.Sessions.Routine
import SqlFront.Proofs.Sessions.Names
import SqlFront.Proofs.Sessions.Expressions
import SqlFront.Proofs.Sessions.Queries
import SqlFront.Proofs.Sessions.Statements
import SqlFront.Proofs.Sessions.Nonterminals
import SqlFront.Proofs.Sessions.Readings
import SqlFront.Proofs.Commands.Tables
import SqlFront.Proofs.Commands.Paths
import SqlFront.Proofs.Commands.Merges
import SqlFront.Proofs.Commands.Payloads
import SqlFront.Proofs.Grammar.Case
import SqlFront.Proofs.Tokens.Unclosed
import SqlFront.Proofs.Grammar.Whole
import SqlFront.Proofs.Tokens.Integers
import SqlFront.Proofs.Commands.Integers
import SqlFront.Proofs.Commands.IntegerOptions
import SqlFront.Proofs.Tokens.Alone
import SqlFront.Proofs.Printing.Lines
import SqlFront.Proofs.Printing.Queries
import SqlFront.Proofs.Printing.Around
import SqlFront.Proofs.Printing.Subqueries
import SqlFront.Proofs.Grammar.Embedded
import SqlFront.Proofs.Grammar.Subqueries
import SqlFront.Proofs.Grammar.Verbatim
import SqlFront.Proofs.Text.Escapes
import SqlFront.Proofs.Tokens.Dashes
import SqlFront.Proofs.Tokens.Joined
import SqlFront.Proofs.Tokens.BackQuotes
import SqlFront.Proofs.Grammar.Intervals
import SqlFront.Proofs.Commands.Parts
import SqlFront.Proofs.Reports.Lines
import SqlFront.Proofs.Reports.Pointers
import SqlFront.Proofs.Shell.LastWord
import SqlFront.Proofs.Grammar.Parentheses
