import LiterateFun.Command.Arguments
import LiterateFun.Command.Host
import LiterateFun.Command.LineBuffer
import LiterateFun.Command.Run
import LiterateFun.Command.Workspace
import LiterateFun.Compile
import LiterateFun.Document.Basic
import LiterateFun.Document.Read
import LiterateFun.Document.Reference
import LiterateFun.Lowering.Basic
import LiterateFun.Lowering.Generator
import LiterateFun.Main
import LiterateFun.Number.Basic
import LiterateFun.Number.Decimal
import LiterateFun.Number.Numeral
import LiterateFun.Position
import LiterateFun.Prelude
import LiterateFun.Program.Basic
import LiterateFun.Program.Occurrences
import LiterateFun.Program.Parse
import LiterateFun.Program.Print
import LiterateFun.Proofs.Basics
import LiterateFun.Proofs.Documents.Compiled
import LiterateFun.Proofs.Documents.Markers
import LiterateFun.Proofs.Documents.Nearest
import LiterateFun.Proofs.Documents.Reading
import LiterateFun.Proofs.Documents.References
import LiterateFun.Proofs.Documents.Rendering
import LiterateFun.Proofs.Emission.Block
import LiterateFun.Proofs.Emission.Classes
import LiterateFun.Proofs.Emission.Compiled
import LiterateFun.Proofs.Emission.Lexemes
import LiterateFun.Proofs.Emission.Lines
import LiterateFun.Proofs.Emission.Mentions
import LiterateFun.Proofs.Emission.Names
import LiterateFun.Proofs.Emission.Newlines
import LiterateFun.Proofs.Emission.Outline
import LiterateFun.Proofs.Emission.Reading
import LiterateFun.Proofs.Emission.Scopes
import LiterateFun.Proofs.Emission.StringLiterals
import LiterateFun.Proofs.Emission.Variables
import LiterateFun.Proofs.ErrorLocations
import LiterateFun.Proofs.Evaluation
import LiterateFun.Proofs.Execution
import LiterateFun.Proofs.Locations
import LiterateFun.Proofs.Lowering.Block
import LiterateFun.Proofs.Lowering.Contents
import LiterateFun.Proofs.Lowering.DeclarationFree
import LiterateFun.Proofs.Lowering.Declared
import LiterateFun.Proofs.Lowering.Expression
import LiterateFun.Proofs.Lowering.Histories
import LiterateFun.Proofs.Lowering.Order
import LiterateFun.Proofs.Lowering.Spans
import LiterateFun.Proofs.Lowering.Statements
import LiterateFun.Proofs.Lowering.Temporaries
import LiterateFun.Proofs.Naming.Arrangement
import LiterateFun.Proofs.Naming.Compiled
import LiterateFun.Proofs.Naming.Definitions
import LiterateFun.Proofs.Naming.Finding
import LiterateFun.Proofs.Naming.Incremental
import LiterateFun.Proofs.Naming.Lookup
import LiterateFun.Proofs.Naming.Lowering
import LiterateFun.Proofs.Naming.Occurrences
import LiterateFun.Proofs.Naming.References
import LiterateFun.Proofs.Naming.Region
import LiterateFun.Proofs.Naming.Scopes
import LiterateFun.Proofs.Naming.Spelling
import LiterateFun.Proofs.Parsing.Assignments
import LiterateFun.Proofs.Parsing.Completeness
import LiterateFun.Proofs.Parsing.EarliestError
import LiterateFun.Proofs.Parsing.Grammar
import LiterateFun.Proofs.Parsing.Lookahead
import LiterateFun.Proofs.Parsing.Names
import LiterateFun.Proofs.Parsing.OwnText
import LiterateFun.Proofs.Parsing.Places
import LiterateFun.Proofs.Parsing.Recognition
import LiterateFun.Proofs.Parsing.Rules
import LiterateFun.Proofs.Parsing.Soundness
import LiterateFun.Proofs.Positions.EndOfInput
import LiterateFun.Proofs.Positions.ReadingOrder
import LiterateFun.Proofs.Positions.Restarting
import LiterateFun.Proofs.Printing.ClosingBrace
import LiterateFun.Proofs.Printing.Expression
import LiterateFun.Proofs.Printing.ExpressionReading
import LiterateFun.Proofs.Printing.Leaves
import LiterateFun.Proofs.Printing.Literals
import LiterateFun.Proofs.Printing.NumberText
import LiterateFun.Proofs.Printing.Parsed
import LiterateFun.Proofs.Printing.RoundTrip
import LiterateFun.Proofs.Printing.Tokens
import LiterateFun.Proofs.Printing.UniqueReading
import LiterateFun.Proofs.Relabel
import LiterateFun.Proofs.Scanning
import LiterateFun.Proofs.ScopeTree
import LiterateFun.Proofs.Scoping.Accepted
import LiterateFun.Proofs.Scoping.Agreement
import LiterateFun.Proofs.Scoping.Block
import LiterateFun.Proofs.Scoping.Expression
import LiterateFun.Proofs.Scoping.Failures
import LiterateFun.Proofs.Scoping.Hoisting
import LiterateFun.Proofs.Scoping.Identity
import LiterateFun.Proofs.Scoping.Independence
import LiterateFun.Proofs.Scoping.RegistrationOrder
import LiterateFun.Proofs.Scoping.Renaming
import LiterateFun.Proofs.Scoping.Roles
import LiterateFun.Proofs.Scoping.Session
import LiterateFun.Proofs.Scoping.Sites
import LiterateFun.Proofs.Scoping.Surroundings
import LiterateFun.Proofs.Scoping.Tasks
import LiterateFun.Proofs.Scoping.Variables
import LiterateFun.Proofs.Scoping.Violations
import LiterateFun.Proofs.Scoping.WriteOnce
import LiterateFun.Proofs.SourceOrder
import LiterateFun.Proofs.Spacing.Compiled
import LiterateFun.Proofs.Spacing.Scanning
import LiterateFun.Proofs.Spacing.Tiling
import LiterateFun.Proofs.Subexpressions
import LiterateFun.Resolution.Basic
import LiterateFun.Resolution.Error
import LiterateFun.Resolution.Scope
import LiterateFun.Resolution.Session
import LiterateFun.Resolution.Stack
import LiterateFun.Script.Basic
import LiterateFun.Script.Render
import LiterateFun.Script.StringLiteral
import LiterateFun.Text.Digits
import LiterateFun.Text.Quoted
import LiterateFun.Text.Visible
import LiterateFun.Token.Basic
import LiterateFun.Token.Scan
