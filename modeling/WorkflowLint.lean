import WorkflowLint.Analysis
import WorkflowLint.Check.Scalar
import WorkflowLint.Check.Walk
import WorkflowLint.Completion
import WorkflowLint.Diagnostic
import WorkflowLint.Expr.Coercion
import WorkflowLint.Expr.Context
import WorkflowLint.Expr.Error
import WorkflowLint.Expr.Eval
import WorkflowLint.Expr.Function
import WorkflowLint.Expr.Lexer
import WorkflowLint.Expr.Parser
import WorkflowLint.Expr.Syntax
import WorkflowLint.Expr.Token
import WorkflowLint.Hover
import WorkflowLint.Json.Printer
import WorkflowLint.Json.Reader
import WorkflowLint.Json.Value
import WorkflowLint.Main
import WorkflowLint.Marker
import WorkflowLint.Number.Binary64
import WorkflowLint.Number.Decimal
import WorkflowLint.Number.Layout
import WorkflowLint.Number.Power
import WorkflowLint.Number.Shortest
import WorkflowLint.Path
import WorkflowLint.Schema.Needs
import WorkflowLint.Schema.Shape
import WorkflowLint.Schema.Workflow
import WorkflowLint.Server.Config
import WorkflowLint.Server.Message
import WorkflowLint.Server.Rpc
import WorkflowLint.Server.State
import WorkflowLint.Text.Ascii
import WorkflowLint.Text.Blank
import WorkflowLint.Text.Bytes
import WorkflowLint.Text.CaseTable
import WorkflowLint.Text.Digit
import WorkflowLint.Text.Lines
import WorkflowLint.Text.Lowercase
import WorkflowLint.Text.PrintTable
import WorkflowLint.Text.Property
import WorkflowLint.Text.Quoted
import WorkflowLint.Text.Span
import WorkflowLint.Tree.Basic
import WorkflowLint.Tree.Build
import WorkflowLint.Tree.Decode
import WorkflowLint.Tree.Find
import WorkflowLint.Tree.Outline
import WorkflowLint.Tree.Value
import WorkflowLint.Workflow.Contexts
import WorkflowLint.Yaml.Concrete
import WorkflowLint.Yaml.Load
import WorkflowLint.Yaml.Mark
import WorkflowLint.Yaml.Node
import WorkflowLint.Yaml.Problem
import WorkflowLint.Yaml.Recover
import WorkflowLint.Yaml.Scalar
import WorkflowLint.Yaml.Stream
import WorkflowLint.Yaml.Tag
import WorkflowLint.Yaml.ToJson
import WorkflowLint.Yaml.Token
import WorkflowLint.Yaml.Value
import WorkflowLint.Proofs.Expr.Knowledge
import WorkflowLint.Proofs.Expr.Grammar
import WorkflowLint.Proofs.Expr.Soundness
import WorkflowLint.Proofs.Expr.Completeness
import WorkflowLint.Proofs.Expr.Word
import WorkflowLint.Proofs.Marker.Embed
import WorkflowLint.Proofs.Marker.Search
import WorkflowLint.Proofs.Check.Calls
import WorkflowLint.Proofs.Check.Structure
import WorkflowLint.Proofs.Check.Overflow
import WorkflowLint.Proofs.Check.Places
import WorkflowLint.Proofs.Text.Offset
import WorkflowLint.Proofs.Text.Lines
import WorkflowLint.Proofs.Check.Bounds
import WorkflowLint.Proofs.Tree.Outline
import WorkflowLint.Proofs.Tree.Numbering
import WorkflowLint.Proofs.Tree.WellFormed
import WorkflowLint.Proofs.Check.Quoting
import WorkflowLint.Proofs.Expr.Fields
import WorkflowLint.Proofs.Expr.Snapshot
import WorkflowLint.Proofs.Expr.Chain
import WorkflowLint.Proofs.Expr.Blame
import WorkflowLint.Proofs.Expr.Extension
import WorkflowLint.Proofs.Workflow.Steps
import WorkflowLint.Proofs.Check.Values
import WorkflowLint.Proofs.Server.Interleave
import WorkflowLint.Proofs.Server.Overlap
import WorkflowLint.Proofs.Server.History
import WorkflowLint.Proofs.Expr.Navigate
import WorkflowLint.Proofs.Completion.Properties
import WorkflowLint.Proofs.Json.Order
import WorkflowLint.Proofs.Expr.Whole
import WorkflowLint.Proofs.Workflow.Variables
import WorkflowLint.Proofs.Check.Verdicts
import WorkflowLint.Proofs.Check.Interpolation
import WorkflowLint.Proofs.Workflow.Needs
import WorkflowLint.Proofs.Workflow.Matrix
import WorkflowLint.Proofs.Tree.Innermost
import WorkflowLint.Proofs.Expr.Boundary
import WorkflowLint.Proofs.Expr.Lexemes
import WorkflowLint.Proofs.Expr.Relabel
import WorkflowLint.Proofs.Expr.Layout
import WorkflowLint.Proofs.Expr.Reading
import WorkflowLint.Proofs.Expr.Located
import WorkflowLint.Proofs.Expr.Spans
import WorkflowLint.Proofs.Expr.Printing
import WorkflowLint.Proofs.Expr.Template
import WorkflowLint.Proofs.Expr.Placeholder
import WorkflowLint.Proofs.Json.Comparison
import WorkflowLint.Proofs.Number.Literal
import WorkflowLint.Proofs.Check.Coverage
import WorkflowLint.Proofs.Tree.Decode
