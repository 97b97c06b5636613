import Scriptlet.Eval.Evaluate
import Scriptlet.Parse.Grammar

/-!
Running a text: its tokens are read, parsed, and evaluated in a scope. A text with diagnostics is
not evaluated at all.
-/

namespace Scriptlet

/-- How far parsing and evaluation may go. -/
structure Limits where
  /-- Expressions nested in each other in a text. -/
  nesting : Nat := defaultLevels
  /-- Evaluations inside each other. -/
  depth : Nat := defaultDepth

inductive Ending where
  | diagnosed (diagnostics : List Diagnostic)
  | nestedTooDeep
  | finished (value : Option Value)
  | broken (breach : Breach)
  | calledTooDeep

def Node.run (limits : Limits) (scope : ScopeId) (tree : Node) (m : Machine) : Ending × Machine :=
  match evaluate limits.depth scope tree m with
  | .done value m => (.finished value, m)
  | .broken breach m => (.broken breach, m)
  | .tooDeep m => (.calledTooDeep, m)

def Machine.noteDiagnostics (m : Machine) (diagnostics : List Diagnostic) : Machine :=
  { m with notes := diagnostics.foldl (fun notes d => notes.push (.parseError d)) m.notes }

/-- Parses a text and, if there is nothing to say against it, evaluates it in a scope. -/
def runText (limits : Limits) (aliases : AliasTable) (scope : ScopeId) (text : String)
    (m : Machine) : Ending × Machine :=
  match Reading.ofText limits.nesting aliases text with
  | .tooDeep diagnostics => (.nestedTooDeep, m.noteDiagnostics diagnostics)
  | .parsed tree [] => tree.run limits scope m
  | .parsed _ diagnostics => (.diagnosed diagnostics, m.noteDiagnostics diagnostics)

end Scriptlet
