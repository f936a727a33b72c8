import SourcePreprocessor.Block
import SourcePreprocessor.CommandLine
import SourcePreprocessor.Definition
import SourcePreprocessor.Diagnostic
import SourcePreprocessor.Directive.Argument
import SourcePreprocessor.Directive.Basic
import SourcePreprocessor.Directive.Line
import SourcePreprocessor.Expr.Error
import SourcePreprocessor.Expr.Eval
import SourcePreprocessor.Expr.Function
import SourcePreprocessor.Expr.Item
import SourcePreprocessor.Expr.Lexer
import SourcePreprocessor.Expr.Name
import SourcePreprocessor.Expr.Operator
import SourcePreprocessor.Expr.Parser
import SourcePreprocessor.Expr.Signature
import SourcePreprocessor.Expr.Token
import SourcePreprocessor.Expr.Value
import SourcePreprocessor.File.Path
import SourcePreprocessor.File.Tree
import SourcePreprocessor.Log
import SourcePreprocessor.Main
import SourcePreprocessor.Number.Binary32
import SourcePreprocessor.Number.Integer
import SourcePreprocessor.Number.Numeral
import SourcePreprocessor.Number.Shortest
import SourcePreprocessor.Pass.Global
import SourcePreprocessor.Pass.Insertion
import SourcePreprocessor.Pass.Line
import SourcePreprocessor.Pass.Output
import SourcePreprocessor.Run
import SourcePreprocessor.Scope
import SourcePreprocessor.Session
import SourcePreprocessor.Settings
import SourcePreprocessor.Table
import SourcePreprocessor.Text.Basic
import SourcePreprocessor.Text.Blank
import SourcePreprocessor.Text.Case
import SourcePreprocessor.Text.CaseRange
import SourcePreprocessor.Text.Escape
import SourcePreprocessor.Text.Line
import SourcePreprocessor.Text.Order
import SourcePreprocessor.Proofs.Except
import SourcePreprocessor.Proofs.InPlace
import SourcePreprocessor.Proofs.Pass.Step
import SourcePreprocessor.Proofs.Pass.Structured
import SourcePreprocessor.Proofs.Pass.Inclusion
import SourcePreprocessor.Proofs.Pass.IncludeChain
import SourcePreprocessor.Proofs.Expr.Grammar
import SourcePreprocessor.Proofs.Expr.Lexing
import SourcePreprocessor.Proofs.Expr.Printing
import SourcePreprocessor.Proofs.Expr.RoundTrip
import SourcePreprocessor.Proofs.Expr.Literal
import SourcePreprocessor.Proofs.Text.Parts
import SourcePreprocessor.Proofs.Expr.Names
import SourcePreprocessor.Proofs.Pass.Relocation
import SourcePreprocessor.Proofs.File.Files
import SourcePreprocessor.Proofs.File.OneFile
import SourcePreprocessor.Proofs.Pass.LeftOut
import SourcePreprocessor.Proofs.Pass.Trace
import SourcePreprocessor.Proofs.Run.Phases
import SourcePreprocessor.Proofs.Run.Delivery
import SourcePreprocessor.Proofs.Run.Exclusions
import SourcePreprocessor.Proofs.Run.OutputTree
import SourcePreprocessor.Proofs.Run.Atomicity
import SourcePreprocessor.Proofs.Block.Operation
import SourcePreprocessor.Proofs.Block.Selection
import SourcePreprocessor.Proofs.Block.Nesting
import SourcePreprocessor.Proofs.Run.SingleText
import SourcePreprocessor.Proofs.Pass.Separation
import SourcePreprocessor.Proofs.Run.Deferral
import SourcePreprocessor.Proofs.Expr.ErrorColumn
import SourcePreprocessor.Proofs.Pass.ErrorPlace
import SourcePreprocessor.Proofs.File.Directory
import SourcePreprocessor.Proofs.Pass.Placement
import SourcePreprocessor.Proofs.Pass.Inlining
import SourcePreprocessor.Proofs.Expr.Meaning
import SourcePreprocessor.Proofs.Expr.TypeSafety
import SourcePreprocessor.Proofs.Expr.Strictness
import SourcePreprocessor.Proofs.Expr.IntegerArithmetic
import SourcePreprocessor.Proofs.File.WellFormed
import SourcePreprocessor.Proofs.File.Way
import SourcePreprocessor.Proofs.File.Making
import SourcePreprocessor.Proofs.File.Clearing
import SourcePreprocessor.Proofs.File.Repeating
import SourcePreprocessor.Proofs.Pass.LargerTree
import SourcePreprocessor.Proofs.Run.Inputs
import SourcePreprocessor.Proofs.Run.Resurvey
import SourcePreprocessor.Proofs.Run.Redelivery
import SourcePreprocessor.Proofs.Run.Repetition
import SourcePreprocessor.Proofs.Expr.Segments
import SourcePreprocessor.Proofs.Expr.Patterns
import SourcePreprocessor.Proofs.Expr.Decomposition
import SourcePreprocessor.Proofs.Text.Occurrence
import SourcePreprocessor.Proofs.Pass.InPlace
import SourcePreprocessor.Proofs.Pass.LineInPlace
import SourcePreprocessor.Proofs.Pass.ScanInPlace
import SourcePreprocessor.Proofs.Pass.Failure
import SourcePreprocessor.Proofs.Pass.Substitution
import SourcePreprocessor.Proofs.Pass.Stopping
import SourcePreprocessor.Proofs.Pass.LastEnd
import SourcePreprocessor.Proofs.Text.Lines
import SourcePreprocessor.Proofs.Text.Trim
import SourcePreprocessor.Proofs.Pass.PlainText
import SourcePreprocessor.Proofs.Pass.IncludedFrom
import SourcePreprocessor.Proofs.Pass.Course
import SourcePreprocessor.Proofs.Pass.Assignment
import SourcePreprocessor.Proofs.Pass.Change
import SourcePreprocessor.Proofs.Pass.LastWriter
import SourcePreprocessor.Proofs.Text.Escaping
import SourcePreprocessor.Proofs.Text.CodeUnits
import SourcePreprocessor.Proofs.Text.Literals
import SourcePreprocessor.Proofs.Text.JavaText
import SourcePreprocessor.Proofs.Text.Markup
import SourcePreprocessor.Proofs.Text.ScriptText
import SourcePreprocessor.Proofs.Text.Record
import SourcePreprocessor.Proofs.Expr.JavaLiteral
import SourcePreprocessor.Proofs.Text.LowerCase
import SourcePreprocessor.Proofs.Pass.NameCheck
import SourcePreprocessor.Proofs.Number.Reading
import SourcePreprocessor.Proofs.Number.Nearest
import SourcePreprocessor.Proofs.Number.Conversion
import SourcePreprocessor.Proofs.Text.TrimmedLines
