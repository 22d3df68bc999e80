import PageLint.Analysis
import PageLint.Command.Arguments
import PageLint.Command.Run
import PageLint.Config
import PageLint.Diagnostic
import PageLint.Event
import PageLint.Files.Check
import PageLint.Files.Path
import PageLint.Files.Storage
import PageLint.Json
import PageLint.Literal
import PageLint.Location
import PageLint.Main
import PageLint.Markup.Part
import PageLint.Markup.Span
import PageLint.Markup.TagText
import PageLint.Proofs.Batch.Names
import PageLint.Proofs.Batch.Paths
import PageLint.Proofs.Batch.Reports
import PageLint.Proofs.Batch.Storage
import PageLint.Proofs.Brackets.Arguments
import PageLint.Proofs.Brackets.Bodies
import PageLint.Proofs.Brackets.Matching
import PageLint.Proofs.Comments.Expressions
import PageLint.Proofs.Comments.Operands
import PageLint.Proofs.Comments.Pages
import PageLint.Proofs.Comments.Places
import PageLint.Proofs.Comments.Statements
import PageLint.Proofs.Comments.Transparency
import PageLint.Proofs.Declarations.Reading
import PageLint.Proofs.Declarations.Text
import PageLint.Proofs.DeclaredNames
import PageLint.Proofs.Desk.Expressions
import PageLint.Proofs.Desk.Pages
import PageLint.Proofs.Dumps.Objects
import PageLint.Proofs.Dumps.Pages
import PageLint.Proofs.Dumps.Tables
import PageLint.Proofs.Dumps.Texts
import PageLint.Proofs.ExpressionWords
import PageLint.Proofs.Folding
import PageLint.Proofs.Forest
import PageLint.Proofs.Freeze
import PageLint.Proofs.FrozenPlaces
import PageLint.Proofs.Grammar.Expressions
import PageLint.Proofs.Grammar.Pages
import PageLint.Proofs.Grammar.Sites
import PageLint.Proofs.Grammar.Statements
import PageLint.Proofs.Ids.Attributes
import PageLint.Proofs.Ids.Missing
import PageLint.Proofs.Ids.Targets
import PageLint.Proofs.Lexical.Forms
import PageLint.Proofs.Lexical.Tokens
import PageLint.Proofs.LineEnds.Cuts
import PageLint.Proofs.LineEnds.Independence
import PageLint.Proofs.LineEnds.Respelling
import PageLint.Proofs.LineEnds.Scanning
import PageLint.Proofs.LineEnds.Tags
import PageLint.Proofs.Markup.Code
import PageLint.Proofs.Markup.Conservation
import PageLint.Proofs.Markup.Openings
import PageLint.Proofs.Markup.Parts
import PageLint.Proofs.Markup.Pieces
import PageLint.Proofs.Markup.Spans
import PageLint.Proofs.Markup.TagNames
import PageLint.Proofs.ModeDiscipline
import PageLint.Proofs.Modes
import PageLint.Proofs.Naming
import PageLint.Proofs.Passes.Categories
import PageLint.Proofs.Passes.Collecting
import PageLint.Proofs.Passes.History
import PageLint.Proofs.Passes.Independence
import PageLint.Proofs.Passes.Operators
import PageLint.Proofs.Passes.Sharing
import PageLint.Proofs.Passes.Validators
import PageLint.Proofs.Passes.Walks
import PageLint.Proofs.Places.Moves
import PageLint.Proofs.Places.Nodes
import PageLint.Proofs.Places.Spans
import PageLint.Proofs.Places.Statements
import PageLint.Proofs.Places.Tags
import PageLint.Proofs.Positions
import PageLint.Proofs.Prefixes.Lengths
import PageLint.Proofs.Prefixes.Scanning
import PageLint.Proofs.Regions.Chunks
import PageLint.Proofs.Regions.Coverage
import PageLint.Proofs.Regions.Emptied
import PageLint.Proofs.Regions.Encounters
import PageLint.Proofs.Regions.Expressions
import PageLint.Proofs.Regions.InputEnd
import PageLint.Proofs.Regions.Isolation
import PageLint.Proofs.Regions.Loop
import PageLint.Proofs.Regions.Statements
import PageLint.Proofs.Registries
import PageLint.Proofs.Reports.Entries
import PageLint.Proofs.Reports.Layout
import PageLint.Proofs.Reports.Lines
import PageLint.Proofs.Reports.OneLine
import PageLint.Proofs.Reports.Order
import PageLint.Proofs.Reports.Placement
import PageLint.Proofs.RoundTrip.Elements
import PageLint.Proofs.RoundTrip.Reading
import PageLint.Proofs.RoundTrip.Tags
import PageLint.Proofs.Scoping
import PageLint.Proofs.ScriptTokens
import PageLint.Proofs.Scripts
import PageLint.Proofs.Settings
import PageLint.Proofs.Shape
import PageLint.Proofs.Suffix
import PageLint.Proofs.Tables
import PageLint.Proofs.Termination
import PageLint.Proofs.Tiling
import PageLint.Proofs.Views.Expressions
import PageLint.Proofs.Views.Forests
import PageLint.Proofs.Views.Nodes
import PageLint.Proofs.Views.Pages
import PageLint.Proofs.Views.Rules
import PageLint.Proofs.Views.Statements
import PageLint.Proofs.Written.Calls
import PageLint.Proofs.Written.Chains
import PageLint.Proofs.Written.Constants
import PageLint.Proofs.Written.Formulas
import PageLint.Proofs.Written.Singles
import PageLint.Proofs.Written.Spelling
import PageLint.Proofs.Written.Sums
import PageLint.Reading.Expression
import PageLint.Reading.Page
import PageLint.Reading.Reader
import PageLint.Reading.Statement
import PageLint.Report
import PageLint.Rule.Assignment
import PageLint.Rule.Constant
import PageLint.Rule.Function
import PageLint.Rule.Lookup
import PageLint.Rule.Name
import PageLint.Rule.Pass
import PageLint.Rule.Skeleton
import PageLint.Text.CharClass
import PageLint.Text.Decimal
import PageLint.Text.Display
import PageLint.Text.Letter
import PageLint.Text.Lines
import PageLint.Text.Lower
import PageLint.Text.Numeral
import PageLint.Text.Printable
import PageLint.Text.Quote
import PageLint.Text.Search
import PageLint.Text.Utf8
import PageLint.Text.Word
import PageLint.Token.Basic
import PageLint.Token.Markup
import PageLint.Token.Script
import PageLint.Token.Stream
import PageLint.Token.Words
import PageLint.Tree.Dump
import PageLint.Tree.Fields
import PageLint.Tree.Frame
import PageLint.Tree.Node
import PageLint.Tree.OpenTags
import PageLint.Tree.Walk
