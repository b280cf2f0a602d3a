import PhpSyntax.Check.Nullable
import PhpSyntax.Check.Reach
import PhpSyntax.Check.Report
import PhpSyntax.Cli.Arguments
import PhpSyntax.Cli.FileTree
import PhpSyntax.Cli.Run
import PhpSyntax.Literal.Escape
import PhpSyntax.Literal.Integer
import PhpSyntax.Main
import PhpSyntax.Message.Catalog
import PhpSyntax.Message.Diagnostic
import PhpSyntax.Message.Key
import PhpSyntax.Parser
import PhpSyntax.Peg.Build
import PhpSyntax.Peg.Failure
import PhpSyntax.Peg.Grammar
import PhpSyntax.Peg.Matching
import PhpSyntax.Peg.Pattern
import PhpSyntax.Peg.Rule
import PhpSyntax.Peg.Session
import PhpSyntax.Peg.Shape
import PhpSyntax.Peg.Terminal
import PhpSyntax.Php.Access
import PhpSyntax.Php.Class
import PhpSyntax.Php.ControlFlow
import PhpSyntax.Php.Fold
import PhpSyntax.Php.Function
import PhpSyntax.Php.Heredoc
import PhpSyntax.Php.Interpolation
import PhpSyntax.Php.Literal
import PhpSyntax.Php.Markup
import PhpSyntax.Php.Member
import PhpSyntax.Php.Name
import PhpSyntax.Php.Operator
import PhpSyntax.Php.Program
import PhpSyntax.Php.Statement
import PhpSyntax.Php.Table
import PhpSyntax.Php.Term
import PhpSyntax.Php.Trivia
import PhpSyntax.Proofs.Check.Agreement
import PhpSyntax.Proofs.Check.Nullable
import PhpSyntax.Proofs.Check.Promptness
import PhpSyntax.Proofs.Check.Pruning
import PhpSyntax.Proofs.Check.Reach
import PhpSyntax.Proofs.Cli.Printed
import PhpSyntax.Proofs.Message.Catalog
import PhpSyntax.Proofs.Peg.Afresh
import PhpSyntax.Proofs.Peg.Calling
import PhpSyntax.Proofs.Peg.Chaining
import PhpSyntax.Proofs.Peg.Execution
import PhpSyntax.Proofs.Peg.Expansion
import PhpSyntax.Proofs.Peg.Exploring
import PhpSyntax.Proofs.Peg.Foresight
import PhpSyntax.Proofs.Peg.Form
import PhpSyntax.Proofs.Peg.Handing
import PhpSyntax.Proofs.Peg.Inlining
import PhpSyntax.Proofs.Peg.Instrumentation
import PhpSyntax.Proofs.Peg.Keeping
import PhpSyntax.Proofs.Peg.Laying
import PhpSyntax.Proofs.Peg.Leaves
import PhpSyntax.Proofs.Peg.Limit
import PhpSyntax.Proofs.Peg.Linking
import PhpSyntax.Proofs.Peg.Locating
import PhpSyntax.Proofs.Peg.Matches
import PhpSyntax.Proofs.Peg.Moved
import PhpSyntax.Proofs.Peg.Nesting
import PhpSyntax.Proofs.Peg.Occurring
import PhpSyntax.Proofs.Peg.Opening
import PhpSyntax.Proofs.Peg.Packrat
import PhpSyntax.Proofs.Peg.Plan
import PhpSyntax.Proofs.Peg.Raising
import PhpSyntax.Proofs.Peg.Reading
import PhpSyntax.Proofs.Peg.Recall
import PhpSyntax.Proofs.Peg.Relation
import PhpSyntax.Proofs.Peg.Renumbering
import PhpSyntax.Proofs.Peg.Retracing
import PhpSyntax.Proofs.Peg.Run
import PhpSyntax.Proofs.Peg.Skipping
import PhpSyntax.Proofs.Peg.Spanning
import PhpSyntax.Proofs.Peg.Subparse
import PhpSyntax.Proofs.Peg.Taking
import PhpSyntax.Proofs.Peg.Termination
import PhpSyntax.Proofs.Peg.Transparency
import PhpSyntax.Proofs.Peg.Underway
import PhpSyntax.Proofs.Php.BodyParts
import PhpSyntax.Proofs.Php.ClosingLine
import PhpSyntax.Proofs.Php.Comment
import PhpSyntax.Proofs.Php.Diagnosis
import PhpSyntax.Proofs.Php.Folding
import PhpSyntax.Proofs.Php.Forms
import PhpSyntax.Proofs.Php.Handlers
import PhpSyntax.Proofs.Php.Heredoc
import PhpSyntax.Proofs.Php.Instrumentation
import PhpSyntax.Proofs.Php.Integer
import PhpSyntax.Proofs.Php.Interpolated
import PhpSyntax.Proofs.Php.Leaves
import PhpSyntax.Proofs.Php.Levels
import PhpSyntax.Proofs.Php.Limit
import PhpSyntax.Proofs.Php.Locating
import PhpSyntax.Proofs.Php.Moved
import PhpSyntax.Proofs.Php.Operands
import PhpSyntax.Proofs.Php.Page
import PhpSyntax.Proofs.Php.Precedence
import PhpSyntax.Proofs.Php.Printed
import PhpSyntax.Proofs.Php.Printing
import PhpSyntax.Proofs.Php.Processors
import PhpSyntax.Proofs.Php.Quoting
import PhpSyntax.Proofs.Php.Ranges
import PhpSyntax.Proofs.Php.Rendering
import PhpSyntax.Proofs.Php.Reserved
import PhpSyntax.Proofs.Php.RoundTrip
import PhpSyntax.Proofs.Php.Spelling
import PhpSyntax.Proofs.Php.Splitting
import PhpSyntax.Proofs.Php.StringLiteral
import PhpSyntax.Proofs.Php.Subparse
import PhpSyntax.Proofs.Php.Table
import PhpSyntax.Proofs.Php.Validation
import PhpSyntax.Proofs.Php.Variable
import PhpSyntax.Proofs.Php.WellFormed
import PhpSyntax.Proofs.Regex.Backtracking
import PhpSyntax.Proofs.Regex.Folding
import PhpSyntax.Proofs.Regex.Foresight
import PhpSyntax.Proofs.Regex.Framed
import PhpSyntax.Proofs.Regex.Greedy
import PhpSyntax.Proofs.Regex.Preferred
import PhpSyntax.Proofs.Regex.Quoted
import PhpSyntax.Proofs.Regex.Reached
import PhpSyntax.Proofs.Regex.Stepping
import PhpSyntax.Proofs.Regex.Words
import PhpSyntax.Proofs.Render.Json
import PhpSyntax.Proofs.Render.Tree
import PhpSyntax.Proofs.Render.Yaml
import PhpSyntax.Proofs.Source.Lines
import PhpSyntax.Proofs.Source.Position
import PhpSyntax.Proofs.Source.Text
import PhpSyntax.Proofs.Tree.Finished
import PhpSyntax.Proofs.Tree.History
import PhpSyntax.Proofs.Tree.Merging
import PhpSyntax.Proofs.Tree.Moved
import PhpSyntax.Proofs.Tree.Strip
import PhpSyntax.Regex.Bracket
import PhpSyntax.Regex.CharSet
import PhpSyntax.Regex.Encoding
import PhpSyntax.Regex.Escape
import PhpSyntax.Regex.Match
import PhpSyntax.Regex.Mode
import PhpSyntax.Regex.Program
import PhpSyntax.Regex.Property
import PhpSyntax.Regex.Reader
import PhpSyntax.Regex.Size
import PhpSyntax.Regex.Syntax
import PhpSyntax.Render.Document
import PhpSyntax.Render.Json
import PhpSyntax.Render.Resolve
import PhpSyntax.Render.Scalar
import PhpSyntax.Render.Yaml
import PhpSyntax.Source.JsonScan
import PhpSyntax.Source.Options
import PhpSyntax.Source.OptionsReader
import PhpSyntax.Source.Position
import PhpSyntax.Source.Text
import PhpSyntax.Tree.Fields
import PhpSyntax.Tree.Value
import PhpSyntax.Unicode.CaseFold
import PhpSyntax.Unicode.CaseMap
import PhpSyntax.Unicode.Category
import PhpSyntax.Unicode.Digit
import PhpSyntax.Unicode.Property
import PhpSyntax.Unicode.Range
import PhpSyntax.Unicode.Script
import PhpSyntax.Unicode.Space
import PhpSyntax.Unicode.Table
import PhpSyntax.Unicode.Word
