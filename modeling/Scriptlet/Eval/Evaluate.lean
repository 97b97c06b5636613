import Scriptlet.Eval.Builtin
import Scriptlet.Eval.Operator

/-!
Evaluation of trees. A rule that needs the value of another node is given an evaluator for it, and
`evaluate` ties the knot: a node inside another, and a statement of a called function, is evaluated
with one level less to go, so every rule is an ordinary function.

A statement may have no value. An error ends whatever it comes up in and is handed on as it is. A
return wrapper ends the statements it comes up in and is taken off where a function is called or
where the program ends; an expression that gets one as an operand takes it for a value.
-/

namespace Scriptlet

namespace Eval

/-- Evaluates a node, which may have no value. -/
abbrev Step := Node → Eval (Option Value)

/-- Evaluates a node that must have a value. -/
def value (step : Step) (node : Node) : Eval Value := do
  match ← step node with
  | some v => return v
  | none => breakOff (.noValue node)

/-- Goes on with the value of a node, unless it is an error. -/
@[always_inline, inline]
def withValue (step : Step) (node : Node) (next : Value → Eval (Option Value)) :
    Eval (Option Value) := do
  let v ← value step node
  if v.isError then return some v else next v

section Done

variable {m m' : Machine} {step : Step} {node : Node} {v : Value}

theorem value_done (h : step node m = .done (some v) m') : value step node m = .done v m' :=
  bind_done h _

/-- An error is handed on, and any other value gone on with. -/
theorem withValue_done (h : step node m = .done (some v) m')
    (next : Value → Eval (Option Value)) :
    withValue step node next m = if v.isError then .done (some v) m' else next v m' := by
  unfold withValue
  rw [bind_done (value_done h)]
  cases v.isError <;> rfl

end Done

/-- Evaluates statements one after the other up to the first that ends them. The result is that of
the last one evaluated. -/
def statements (step : Step) : List Node → Option Value → Eval (Option Value)
  | [], result => return result
  | node :: nodes, _ => do
    match ← step node with
    | some v => if v.isExit then return some v else statements step nodes (some v)
    | none => statements step nodes none

/-- Evaluates nodes from left to right up to the first error. `found` holds the values so far, the
last one first. -/
def values (step : Step) : List Node → List Value → Eval (Except RuntimeError (List Value))
  | [], found => return .ok found.reverse
  | node :: nodes, found => do
    match ← value step node with
    | .error reason => return .error reason
    | v => values step nodes (v :: found)

/-- Evaluates the pairs of a hash in order, each key before its value. -/
def pairs (step : Step) : List (Node × Node) → List (Key × Value) →
    Eval (Except RuntimeError (List (Key × Value)))
  | [], found => return .ok found
  | (keyNode, valueNode) :: nodes, found => do
    match ← value step keyNode with
    | .error reason => return .error reason
    | key =>
      match key.key? with
      | none => return .error (.badKey key.tag)
      | some k =>
        match ← value step valueNode with
        | .error reason => return .error reason
        | v => pairs step nodes (insertPair found k v)

def bindAll (scope : ScopeId) : List String → List Value → Eval Unit
  | name :: names, v :: vs => do
    bindName scope name v
    bindAll scope names vs
  | _, _ => return ()

/-- Calls a value. `stepIn` evaluates a node in a scope. -/
def apply (stepIn : ScopeId → Step) (callee : Value) (arguments : List Value) : Eval Value :=
  match callee with
  | .function _ parameters body captured =>
    if arguments.length ≠ parameters.length then
      return .error (.argumentCount parameters.length arguments.length)
    else do
      note (.applying callee arguments.length)
      let scope ← newScope (some captured)
      bindAll scope parameters arguments
      let result ← statements (stepIn scope) body.statements none
      return (result.getD .null).unwrap
  | .builtin f => f.apply arguments
  | other => return .error (.notFunction other.tag)

def ident (scope : ScopeId) (name : String) : Eval Value := do
  match ← lookup scope name with
  | some v => return v
  | none =>
    match Builtin.ofName? name with
    | some f => return .builtin f
    | none => return .error (.notFound name)

/-- The value of a branch; one without a value gives null. -/
def branch (step : Step) (block : Node) : Eval (Option Value) := do
  let result ← statements step block.statements none
  return some (result.getD .null)

def function (scope : ScopeId) (parameters : List Ident) (body : Node) : Eval Value := do
  let names := parameters.map Ident.name
  note (.closureMade names)
  return .function (← freshId) names body scope

end Eval

open Eval in
/-- Evaluates a node in a scope, at most `levels` deep. -/
def evaluate : (levels : Nat) → ScopeId → Node → Eval (Option Value)
  | 0, _, _ => tooDeep
  | levels + 1, scope, node =>
    let step := evaluate levels scope
    match node with
    | .bare _ => breakOff (.noRule node)
    | .program nodes => do return (← statements step nodes none).map Value.unwrap
    | .block _ nodes => statements step nodes none
    | .binding _ name valueNode => withValue step valueNode fun v => do
      bindName scope name.name v
      return none
    | .ret _ none => some <$> newReturned .null
    | .ret _ (some valueNode) => withValue step valueNode fun v => some <$> newReturned v
    | .expression _ valueNode => some <$> value step valueNode
    | .ident id => some <$> Eval.ident scope id.name
    | .integer _ n => return some (.integer n)
    | .boolean _ b => return some (.boolean b)
    | .text _ s => return some (.text s)
    | .array _ nodes => do
      match ← values step nodes [] with
      | .ok elements => some <$> newArray elements
      | .error reason => return some (.error reason)
    | .hash _ nodes => do
      match ← pairs step nodes [] with
      | .ok found => some <$> newHash found
      | .error reason => return some (.error reason)
    | .unary _ operator operand => withValue step operand fun v =>
      return some (v.unary operator)
    | .binary _ left operator right =>
      withValue step left fun l => withValue step right fun r =>
        return some (l.binary operator r)
    | .conditional _ condition consequence alternative => withValue step condition fun v =>
      if v.isTruthy then branch step consequence
      else
        match alternative with
        | some block => branch step block
        | none => return some .null
    | .function _ parameters body => some <$> Eval.function scope parameters body
    | .call _ callee nodes => withValue step callee fun f => do
      match ← values step nodes [] with
      | .ok arguments => some <$> apply (evaluate levels) f arguments
      | .error reason => return some (.error reason)
    | .index _ collection place =>
      withValue step collection fun c => withValue step place fun i =>
        return some (c.index i)

/-- How deeply evaluation may be nested unless said otherwise. -/
def defaultDepth : Nat := 5000

end Scriptlet
