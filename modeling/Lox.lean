import Lox.Text.Blank
import Lox.Decimal.Shortest
import Lox.Decimal.Numeral
import Lox.Span
import Lox.Diagnostic.Code
import Lox.Diagnostic
import Lox.Token
import Lox.Token.Piece
import Lox.Token.Scan
import Lox.Tree
import Lox.Tree.Render
import Lox.Grammar.Complaint
import Lox.Grammar.Cursor
import Lox.Grammar.Expression
import Lox.Grammar.Statement
import Lox.Grammar.Program
import Lox.Store.Table
import Lox.Store.Forest
import Lox.Value
import Lox.Failure
import Lox.Store.Handles
import Lox.Machine.Sink
import Lox.Machine.Operator
import Lox.Machine.State
import Lox.Machine.Evaluate
import Lox.Machine.Session
import Lox.Report
import Lox.Command.Invocation
import Lox.Command.Desk
import Lox.Command.Prompt
import Lox.Command.CommandLine
import Lox.Equipment.Arguments
import Lox.Equipment.EastAsianWide
import Lox.Equipment.ZeroWidth
import Lox.Equipment.CellWidth
import Lox.Equipment.Excerpt
import Lox.Equipment.Drawing
import Lox.Equipment.ClusterClass
import Lox.Equipment.Cluster
import Lox.Equipment.TypedLine
import Lox.Equipment.LineReader
import Lox.Command.Perform
import Lox.Main
import Lox.Proofs.Machine.Followed
import Lox.Proofs.Machine.Run
import Lox.Proofs.Machine.CurrentFrame
import Lox.Proofs.Machine.Binding
import Lox.Proofs.Grammar.Reader
import Lox.Proofs.Grammar.Fuel
import Lox.Proofs.Grammar.Boundary
import Lox.Proofs.Grammar.Derivation
import Lox.Proofs.Grammar.Clean
import Lox.Proofs.Grammar.Breach
import Lox.Proofs.Grammar.Soundness
import Lox.Proofs.Grammar.Completeness
import Lox.Proofs.Grammar.Language
import Lox.Proofs.Machine.Return
import Lox.Proofs.Token.Cut
import Lox.Proofs.Token.Coverage
import Lox.Proofs.Token.Lines
import Lox.Proofs.Token.Respaced
import Lox.Proofs.Grammar.Pending
import Lox.Proofs.Grammar.Predict
import Lox.Proofs.Grammar.FirstMistake
import Lox.Proofs.Store.Names
import Lox.Proofs.Store.Record
import Lox.Proofs.Scope.Nesting
import Lox.Proofs.Scope.Watch
import Lox.Proofs.Scope.Mirror
import Lox.Proofs.Scope.Order
import Lox.Proofs.Scope.Occurrence
import Lox.Proofs.Scope.Lexical
import Lox.Proofs.Grammar.Formed
import Lox.Proofs.Grammar.Element
import Lox.Proofs.Grammar.Recovery
import Lox.Proofs.Machine.Story
import Lox.Proofs.Method.Enclosing
import Lox.Proofs.Method.Activation
import Lox.Proofs.Method.Keyword
import Lox.Proofs.Store.Scoping
import Lox.Proofs.Method.Rooted
import Lox.Proofs.Method.Step
import Lox.Proofs.Method.Telling
import Lox.Proofs.Method.Run
import Lox.Proofs.Method.Session
import Lox.Proofs.Method.Receiver
import Lox.Proofs.Method.Superclass
import Lox.Proofs.Inheritance.Lineage
import Lox.Proofs.Inheritance.Declaration
import Lox.Proofs.Inheritance.Descent
import Lox.Proofs.Inheritance.Run
import Lox.Proofs.Inheritance.Session
import Lox.Proofs.Likeness.Tree
import Lox.Proofs.Likeness.Reading
import Lox.Proofs.Grammar.Progress
import Lox.Proofs.Likeness.Store
import Lox.Proofs.Likeness.Value
import Lox.Proofs.Likeness.Step
import Lox.Proofs.Likeness.Run
import Lox.Proofs.Likeness.KnownOperator
import Lox.Proofs.Likeness.Layout
import Lox.Proofs.Machine.Composed
import Lox.Proofs.Machine.Truncation
import Lox.Proofs.Failure.Raised
import Lox.Proofs.Failure.Origin
import Lox.Proofs.Command.Source
import Lox.Proofs.Command.Prompted
import Lox.Proofs.Machine.Fuel
import Lox.Proofs.Machine.Executed
import Lox.Proofs.Command.Arguments
import Lox.Proofs.Command.Agreement
import Lox.Proofs.Equipment.Arguments
import Lox.Proofs.Report.Artist
import Lox.Proofs.Equipment.Drawing
import Lox.Proofs.Report.Place
import Lox.Proofs.Report.OpeningLine
import Lox.Proofs.Grammar.Unchecked
import Lox.Proofs.Grammar.Checks
import Lox.Proofs.Grammar.Loss
import Lox.Proofs.Grammar.Overlong
import Lox.Proofs.Decimal.Interval
import Lox.Proofs.Decimal.NumberText
import Lox.Proofs.Render.Nested
import Lox.Proofs.Render.Outline
import Lox.Proofs.Render.Legible
import Lox.Proofs.Render.Unambiguous
import Lox.Proofs.Loop.Images
import Lox.Proofs.Loop.Value
import Lox.Proofs.Loop.Step
import Lox.Proofs.Loop.Run
import Lox.Proofs.Loop.Direct
import Lox.Proofs.Loop.Whole
import Lox.Proofs.Loop.Variable
import Lox.Proofs.Loop.Lowering
