import CallByValue.Command.Bundle
import CallByValue.Command.Check
import CallByValue.Command.Directory
import CallByValue.Command.Option
import CallByValue.Command.Program
import CallByValue.Command.Reduce
import CallByValue.Command.Report
import CallByValue.Condition.Budget
import CallByValue.Condition.Code
import CallByValue.Condition.Expr
import CallByValue.Condition.Parser
import CallByValue.Condition.Token
import CallByValue.Condition.Typing
import CallByValue.Condition.Value
import CallByValue.Display.Palette
import CallByValue.Display.Printer
import CallByValue.Double.Literal
import CallByValue.Double.Nearest
import CallByValue.Double.Power
import CallByValue.Double.Shortest
import CallByValue.Edit.Basic
import CallByValue.Edit.Bisect
import CallByValue.Edit.Diff
import CallByValue.Edit.Merge
import CallByValue.Edit.Script
import CallByValue.Main
import CallByValue.Proofs.Command.Listing
import CallByValue.Proofs.Command.Totals
import CallByValue.Proofs.Display.Colours
import CallByValue.Proofs.Run.Alpha
import CallByValue.Proofs.Run.BigStep
import CallByValue.Proofs.Run.Closed
import CallByValue.Proofs.Run.Course
import CallByValue.Proofs.Run.Limit
import CallByValue.Proofs.Run.Ring
import CallByValue.Proofs.Run.Stops
import CallByValue.Proofs.Run.Trace
import CallByValue.Proofs.Source.Calls
import CallByValue.Proofs.Source.Descent
import CallByValue.Proofs.Source.FreshName
import CallByValue.Proofs.Source.Grammar
import CallByValue.Proofs.Source.Layout
import CallByValue.Proofs.Source.Lexable
import CallByValue.Proofs.Source.Machine
import CallByValue.Proofs.Source.Parse
import CallByValue.Proofs.Source.Places
import CallByValue.Proofs.Source.Readings
import CallByValue.Proofs.Source.RoundTrip
import CallByValue.Proofs.Source.Spelling
import CallByValue.Proofs.Source.Tokens
import CallByValue.Proofs.Source.Viable
import CallByValue.Proofs.Suite.Accepted
import CallByValue.Proofs.Suite.Alpha
import CallByValue.Proofs.Suite.History
import CallByValue.Proofs.Suite.Reload
import CallByValue.Proofs.Suite.Validation
import CallByValue.Proofs.Suite.Verdict
import CallByValue.Proofs.Suite.Written
import CallByValue.Proofs.Term.Alpha
import CallByValue.Proofs.Term.Canonical
import CallByValue.Proofs.Term.Conversion
import CallByValue.Proofs.Term.Free
import CallByValue.Proofs.Term.Fresh
import CallByValue.Proofs.Term.Nameless
import CallByValue.Proofs.Term.Occurrences
import CallByValue.Proofs.Term.Reduce
import CallByValue.Proofs.Term.Step
import CallByValue.Proofs.Term.Subst
import CallByValue.Proofs.Term.Traversal
import CallByValue.Proofs.Text.Chars
import CallByValue.Proofs.Text.Glyph
import CallByValue.Proofs.Yaml.Document
import CallByValue.Proofs.Yaml.Line
import CallByValue.Proofs.Yaml.Scalar
import CallByValue.Proofs.Yaml.Scan
import CallByValue.Run.Basic
import CallByValue.Run.Budget
import CallByValue.Run.Evaluator
import CallByValue.Run.Log
import CallByValue.Run.Ring
import CallByValue.Source.Lexer
import CallByValue.Source.Parser
import CallByValue.Source.Token
import CallByValue.Suite.Basic
import CallByValue.Suite.Reader
import CallByValue.Suite.Run
import CallByValue.Suite.Writer
import CallByValue.Term
import CallByValue.Term.Alpha
import CallByValue.Term.NameMap
import CallByValue.Term.Names
import CallByValue.Term.Reduce
import CallByValue.Term.Subst
import CallByValue.Text
import CallByValue.Text.Glyph
import CallByValue.Text.Printable
import CallByValue.Text.Quoted
import CallByValue.Yaml.Document
import CallByValue.Yaml.Item
import CallByValue.Yaml.Node
import CallByValue.Yaml.Number
import CallByValue.Yaml.Scanner
import CallByValue.Yaml.Scanner.Basic
import CallByValue.Yaml.Scanner.Lines
import CallByValue.Yaml.Scanner.Quoted
import CallByValue.Yaml.Timestamp
import CallByValue.Yaml.Token
import CallByValue.Yaml.Writer
