import Scriptlet.Alias.Config
import Scriptlet.Alias.Table
import Scriptlet.Command.Options
import Scriptlet.Command.Run
import Scriptlet.Eval.Builtin
import Scriptlet.Eval.Evaluate
import Scriptlet.Eval.Machine
import Scriptlet.Eval.Operator
import Scriptlet.File
import Scriptlet.Json.Basic
import Scriptlet.Json.Reader
import Scriptlet.Main
import Scriptlet.Number.Double
import Scriptlet.Number.Integer
import Scriptlet.Parse.Basic
import Scriptlet.Parse.Cursor
import Scriptlet.Parse.Grammar
import Scriptlet.Proofs.Alias.Configure
import Scriptlet.Proofs.Alias.Requests
import Scriptlet.Proofs.Alias.Usable
import Scriptlet.Proofs.Alias.Words
import Scriptlet.Proofs.Eval.Alike
import Scriptlet.Proofs.Eval.Arithmetic
import Scriptlet.Proofs.Eval.ErrorFree
import Scriptlet.Proofs.Eval.Exiting
import Scriptlet.Proofs.Eval.Footprint
import Scriptlet.Proofs.Eval.Guarded
import Scriptlet.Proofs.Eval.HashLiteral
import Scriptlet.Proofs.Eval.InRange
import Scriptlet.Proofs.Eval.Isolation
import Scriptlet.Proofs.Eval.Raising
import Scriptlet.Proofs.Eval.Reached
import Scriptlet.Proofs.Eval.Regular
import Scriptlet.Proofs.Eval.Relabel
import Scriptlet.Proofs.Eval.Returned
import Scriptlet.Proofs.Eval.Traced
import Scriptlet.Proofs.Eval.Unbroken
import Scriptlet.Proofs.Eval.Uncaught
import Scriptlet.Proofs.Eval.Unheard
import Scriptlet.Proofs.Eval.Yield
import Scriptlet.Proofs.Grammar.Completeness
import Scriptlet.Proofs.Grammar.Formed
import Scriptlet.Proofs.Grammar.Phrase
import Scriptlet.Proofs.Grammar.Position
import Scriptlet.Proofs.Grammar.Soundness
import Scriptlet.Proofs.Lex.Checked
import Scriptlet.Proofs.Lex.Lexeme
import Scriptlet.Proofs.Lex.Lines
import Scriptlet.Proofs.Lex.Order
import Scriptlet.Proofs.Lex.Quoted
import Scriptlet.Proofs.Lex.Regions
import Scriptlet.Proofs.Lex.Run
import Scriptlet.Proofs.Lex.Scan
import Scriptlet.Proofs.Lex.Spans
import Scriptlet.Proofs.Number.Numeral
import Scriptlet.Proofs.Parse.Aliases
import Scriptlet.Proofs.Parse.Blame
import Scriptlet.Proofs.Parse.Braces
import Scriptlet.Proofs.Parse.Closing
import Scriptlet.Proofs.Parse.Confined
import Scriptlet.Proofs.Parse.Depth
import Scriptlet.Proofs.Parse.Layout
import Scriptlet.Proofs.Parse.Lockstep
import Scriptlet.Proofs.Parse.Outcome
import Scriptlet.Proofs.Parse.Progress
import Scriptlet.Proofs.Parse.Recovery
import Scriptlet.Proofs.Parse.Relabel
import Scriptlet.Proofs.Parse.Termination
import Scriptlet.Proofs.Print.Canonical
import Scriptlet.Proofs.Print.RoundTrip
import Scriptlet.Proofs.Print.Spelling
import Scriptlet.Proofs.Scope.Chain
import Scriptlet.Proofs.Scope.Contents
import Scriptlet.Proofs.Session.Continuation
import Scriptlet.Proofs.Session.Cutting
import Scriptlet.Proofs.Session.Fold
import Scriptlet.Proofs.Text.Replace
import Scriptlet.Proofs.Tree.Discipline
import Scriptlet.Proofs.Tree.Faithful
import Scriptlet.Proofs.Tree.Literals
import Scriptlet.Proofs.Tree.Occurrence
import Scriptlet.Proofs.Tree.Outline
import Scriptlet.Proofs.Tree.Relabel
import Scriptlet.Proofs.Value.Alike
import Scriptlet.Proofs.Value.Parts
import Scriptlet.Proofs.Value.Ranged
import Scriptlet.Proofs.Value.Relabel
import Scriptlet.Scope.Heap
import Scriptlet.Script
import Scriptlet.Session.Basic
import Scriptlet.Text.Basic
import Scriptlet.Text.Quoted
import Scriptlet.Token.Basic
import Scriptlet.Token.Lexer
import Scriptlet.Token.Quoting
import Scriptlet.Token.Reader
import Scriptlet.Tree.Equality
import Scriptlet.Tree.Node
import Scriptlet.Tree.Outline
import Scriptlet.Tree.Printer
import Scriptlet.Value.Basic
import Scriptlet.Value.Display
