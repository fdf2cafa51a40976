import Lisp.Arity
import Lisp.Atom
import Lisp.Builtin
import Lisp.Builtin.Number
import Lisp.Builtin.Run
import Lisp.Clause
import Lisp.CommandLine
import Lisp.Decimal.Digits
import Lisp.Decimal.Double
import Lisp.Decimal.Numeral
import Lisp.Decimal.Shortest
import Lisp.Env
import Lisp.Eval
import Lisp.Eval.Basic
import Lisp.Eval.Call
import Lisp.Eval.Expansion
import Lisp.Eval.Template
import Lisp.Fault
import Lisp.Files
import Lisp.Form
import Lisp.Invocation
import Lisp.Invocation.Basic
import Lisp.Line
import Lisp.Main
import Lisp.Native
import Lisp.Params
import Lisp.Position
import Lisp.Program
import Lisp.Proofs.Builtin.Access
import Lisp.Proofs.Builtin.Alike
import Lisp.Proofs.Builtin.Arithmetic
import Lisp.Proofs.Builtin.Division
import Lisp.Proofs.Builtin.Order
import Lisp.Proofs.Clause.Choice
import Lisp.Proofs.Clause.Written
import Lisp.Proofs.CommandLine.Groups
import Lisp.Proofs.Env.Views
import Lisp.Proofs.Eval.Access
import Lisp.Proofs.Eval.Agreement
import Lisp.Proofs.Eval.Attain
import Lisp.Proofs.Eval.Bounds
import Lisp.Proofs.Eval.CallStack
import Lisp.Proofs.Eval.Compatible
import Lisp.Proofs.Eval.Definitions
import Lisp.Proofs.Eval.Evaluators
import Lisp.Proofs.Eval.Expansion
import Lisp.Proofs.Eval.Faults
import Lisp.Proofs.Eval.Iteration
import Lisp.Proofs.Eval.Moment
import Lisp.Proofs.Eval.NamedFunctions
import Lisp.Proofs.Eval.Parallel
import Lisp.Proofs.Eval.Reach
import Lisp.Proofs.Eval.Scope
import Lisp.Proofs.Eval.Substitution
import Lisp.Proofs.Eval.Termination
import Lisp.Proofs.Eval.Turns
import Lisp.Proofs.Program.Forms
import Lisp.Proofs.Program.Order
import Lisp.Proofs.Registry.History
import Lisp.Proofs.Repl.Access
import Lisp.Proofs.Repl.Answers
import Lisp.Proofs.Repl.Batch
import Lisp.Proofs.Repl.Pending
import Lisp.Proofs.Session.Depth
import Lisp.Proofs.Session.Names
import Lisp.Proofs.Source.Acceptance
import Lisp.Proofs.Source.Derivation
import Lisp.Proofs.Source.Descent
import Lisp.Proofs.Source.Displacement
import Lisp.Proofs.Source.Grammar
import Lisp.Proofs.Source.Incomplete
import Lisp.Proofs.Source.Lines
import Lisp.Proofs.Source.Located
import Lisp.Proofs.Source.Places
import Lisp.Proofs.Source.Progress
import Lisp.Proofs.Source.Sequence
import Lisp.Proofs.Source.Strings
import Lisp.Proofs.Source.Transition
import Lisp.Proofs.Source.Words
import Lisp.Proofs.Value.Alike
import Lisp.Proofs.Value.Equality
import Lisp.Proofs.Value.RoundTrip
import Lisp.Registry
import Lisp.Repl
import Lisp.Session
import Lisp.Settings
import Lisp.Source
import Lisp.Source.Scan
import Lisp.Source.Word
import Lisp.SpecialForm
import Lisp.Terminal.BreakClass
import Lisp.Terminal.Cluster
import Lisp.Terminal.Conjunct
import Lisp.Terminal.Hangul
import Lisp.Terminal.Pictograph
import Lisp.Terminal.Spacing
import Lisp.Terminal.Typing
import Lisp.Text.Blank
import Lisp.Text.Combining
import Lisp.Text.Quoted
import Lisp.Text.Ranges
import Lisp.Text.Unprintable
import Lisp.Value
import Lisp.Value.Printer
import Lisp.Value.Same
