import Scriptlet.Eval.Evaluate

/-!
Evaluation that keeps a record. Whenever a node has been evaluated or a name bound, a moment is
entered: the value, if there is one, and the machine as it is then. Every value that an operand,
an argument, an element, a result or a binding ever has is the value of some node or a part of
it, so the moments show all values that occur. Without the record, this is the evaluation of the
language.
-/

namespace Scriptlet

structure Moment where
  machine : Machine
  found : Option Value

def Traced (α : Type) : Type :=
  Machine → List Moment × Outcome α

namespace Traced

variable {α β : Type}

def pure (a : α) : Traced α :=
  fun m => ([], .done a m)

def bind (e : Traced α) (next : α → Traced β) : Traced β := fun m =>
  match e m with
  | (seen, .done a m) => (seen ++ (next a m).1, (next a m).2)
  | (seen, .broken breach m) => (seen, .broken breach m)
  | (seen, .tooDeep m) => (seen, .tooDeep m)

instance : Monad Traced where
  pure := Traced.pure
  bind := Traced.bind

/-- An evaluation in which nothing is entered. -/
def lift (e : Eval α) : Traced α :=
  fun m => ([], e m)

def enter (found : Option Value) : Traced Unit :=
  fun m => ([⟨m, found⟩], .done () m)

def bindName (scope : ScopeId) (name : String) (v : Value) : Traced Unit := do
  lift (Eval.bindName scope name v)
  enter (some v)

/-- Enters what an evaluation has found. -/
def noting (e : Traced (Option Value)) : Traced (Option Value) := do
  let found ← e
  enter found
  return found

abbrev Step := Node → Traced (Option Value)

def value (step : Step) (node : Node) : Traced Value := do
  match ← step node with
  | some v => return v
  | none => lift (Eval.breakOff (.noValue node))

def withValue (step : Step) (node : Node) (next : Value → Traced (Option Value)) :
    Traced (Option Value) := do
  let v ← value step node
  if v.isError then return some v else next v

def statements (step : Step) : List Node → Option Value → Traced (Option Value)
  | [], result => return result
  | node :: nodes, _ => do
    match ← step node with
    | some v => if v.isExit then return some v else statements step nodes (some v)
    | none => statements step nodes none

def values (step : Step) : List Node → List Value → Traced (Except RuntimeError (List Value))
  | [], found => return .ok found.reverse
  | node :: nodes, found => do
    match ← value step node with
    | .error reason => return .error reason
    | v => values step nodes (v :: found)

def pairs (step : Step) : List (Node × Node) → List (Key × Value) →
    Traced (Except RuntimeError (List (Key × Value)))
  | [], found => return .ok found
  | (keyNode, valueNode) :: nodes, found => do
    match ← value step keyNode with
    | .error reason => return .error reason
    | key =>
      match key.key? with
      | none => return .error (.badKey key.tag)
      | some k =>
        match ← value step valueNode with
        | .error reason => return .error reason
        | v => pairs step nodes (insertPair found k v)

def bindAll (scope : ScopeId) : List String → List Value → Traced Unit
  | name :: names, v :: vs => do
    bindName scope name v
    bindAll scope names vs
  | _, _ => return ()

def apply (stepIn : ScopeId → Step) (callee : Value) (arguments : List Value) : Traced Value :=
  match callee with
  | .function _ parameters body captured =>
    if arguments.length ≠ parameters.length then
      return .error (.argumentCount parameters.length arguments.length)
    else do
      lift (Eval.note (.applying callee arguments.length))
      let scope ← lift (Eval.newScope (some captured))
      bindAll scope parameters arguments
      let result ← statements (stepIn scope) body.statements none
      return (result.getD .null).unwrap
  | .builtin f => lift (f.apply arguments)
  | other => return .error (.notFunction other.tag)

def branch (step : Step) (block : Node) : Traced (Option Value) := do
  let result ← statements step block.statements none
  return some (result.getD .null)

def rule (stepIn : ScopeId → Step) (scope : ScopeId) (node : Node) : Traced (Option Value) :=
  let step := stepIn scope
  match node with
  | .bare _ => lift (Eval.breakOff (.noRule node))
  | .program nodes => do return (← statements step nodes none).map Value.unwrap
  | .block _ nodes => statements step nodes none
  | .binding _ name valueNode => withValue step valueNode fun v => do
    bindName scope name.name v
    return none
  | .ret _ none => some <$> lift (Eval.newReturned .null)
  | .ret _ (some valueNode) => withValue step valueNode fun v =>
    some <$> lift (Eval.newReturned v)
  | .expression _ valueNode => some <$> value step valueNode
  | .ident id => some <$> lift (Eval.ident scope id.name)
  | .integer _ n => return some (.integer n)
  | .boolean _ b => return some (.boolean b)
  | .text _ s => return some (.text s)
  | .array _ nodes => do
    match ← values step nodes [] with
    | .ok elements => some <$> lift (Eval.newArray elements)
    | .error reason => return some (.error reason)
  | .hash _ nodes => do
    match ← pairs step nodes [] with
    | .ok found => some <$> lift (Eval.newHash found)
    | .error reason => return some (.error reason)
  | .unary _ operator operand => withValue step operand fun v =>
    return some (v.unary operator)
  | .binary _ left operator right =>
    withValue step left fun l => withValue step right fun r =>
      return some (l.binary operator r)
  | .conditional _ condition consequence alternative => withValue step condition fun v =>
    if v.isTruthy then branch step consequence
    else
      match alternative with
      | some block => branch step block
      | none => return some .null
  | .function _ parameters body => some <$> lift (Eval.function scope parameters body)
  | .call _ callee nodes => withValue step callee fun f => do
    match ← values step nodes [] with
    | .ok arguments => some <$> apply stepIn f arguments
    | .error reason => return some (.error reason)
  | .index _ collection place =>
    withValue step collection fun c => withValue step place fun i =>
      return some (c.index i)

/-- Evaluates a node in a scope, at most `levels` deep, and keeps the record. -/
def evaluate : (levels : Nat) → ScopeId → Step
  | 0, _, _ => lift Eval.tooDeep
  | levels + 1, scope, node => noting (rule (evaluate levels) scope node)

/-- The evaluation without the record. -/
def erase (e : Traced α) : Eval α :=
  fun m => (e m).2

@[simp] theorem erase_pure (a : α) : erase (Pure.pure a) = Pure.pure a := rfl

/-- What enters nothing is a plain evaluation. -/
@[simp] theorem erase_lift (e : Eval α) : (lift e).erase = e := rfl

/-- The record is written and never read, so it can be left out of both parts. -/
@[simp] theorem erase_bind (e : Traced α) (next : α → Traced β) :
    (e >>= next).erase = e.erase >>= fun a => (next a).erase := by
  funext m
  show (Traced.bind e next m).2 = Eval.bind e.erase (fun a => (next a).erase) m
  unfold Traced.bind Eval.bind erase
  rcases e m with ⟨seen, a | breach | _⟩ <;> rfl

theorem erase_map (f : α → β) (e : Traced α) : (f <$> e).erase = f <$> e.erase :=
  erase_bind e fun a => Pure.pure (f a)

/-- What a binding enters besides is not seen by the erased run. -/
theorem erase_bindName (scope : ScopeId) (name : String) (v : Value) :
    (bindName scope name v).erase = Eval.bindName scope name v := rfl

/-- Entering what was found does not change it. -/
theorem erase_noting (e : Traced (Option Value)) : (noting e).erase = e.erase := by
  unfold noting
  rw [erase_bind]
  funext m
  show Eval.bind e.erase _ m = e.erase m
  unfold Eval.bind
  cases e.erase m <;> rfl

section Rules

variable (step : Step)

theorem erase_value (node : Node) :
    (value step node).erase = Eval.value (fun n => (step n).erase) node := by
  unfold value Eval.value
  rw [erase_bind]
  congr 1
  funext found
  cases found <;> rfl

theorem erase_withValue (node : Node) (next : Value → Traced (Option Value)) :
    (withValue step node next).erase =
      Eval.withValue (fun n => (step n).erase) node fun v => (next v).erase := by
  unfold withValue Eval.withValue
  rw [erase_bind, erase_value]
  congr 1
  funext v
  split <;> rfl

/-- By induction on the statements; each step enters what it enters, and the first exit is
the same. -/
theorem erase_statements (nodes : List Node) (result : Option Value) :
    (statements step nodes result).erase =
      Eval.statements (fun n => (step n).erase) nodes result := by
  induction nodes generalizing result with
  | nil => rfl
  | cons node nodes ih =>
      unfold statements Eval.statements
      rw [erase_bind]
      congr 1
      funext found
      cases found with
      | none => exact ih none
      | some v =>
          simp only
          split
          · rfl
          · exact ih (some v)

theorem erase_branch (block : Node) :
    (branch step block).erase = Eval.branch (fun n => (step n).erase) block := by
  unfold branch Eval.branch
  rw [erase_bind, erase_statements]
  rfl

theorem erase_values (nodes : List Node) (found : List Value) :
    (values step nodes found).erase = Eval.values (fun n => (step n).erase) nodes found := by
  induction nodes generalizing found with
  | nil => rfl
  | cons node nodes ih =>
      unfold values Eval.values
      rw [erase_bind, erase_value]
      congr 1
      funext v
      cases v with
      | error reason => rfl
      | _ => exact ih _

theorem erase_pairs (nodes : List (Node × Node)) (found : List (Key × Value)) :
    (pairs step nodes found).erase = Eval.pairs (fun n => (step n).erase) nodes found := by
  induction nodes generalizing found with
  | nil => rfl
  | cons pair nodes ih =>
      obtain ⟨keyNode, valueNode⟩ := pair
      unfold pairs Eval.pairs
      rw [erase_bind, erase_value]
      congr 1
      funext key
      cases key with
      | integer | boolean | text =>
          simp only [Value.key?]
          rw [erase_bind, erase_value]
          congr 1
          funext v
          cases v with
          | error reason => rfl
          | _ => exact ih _
      | _ => rfl

end Rules

theorem erase_bindAll (scope : ScopeId) (names : List String) (vs : List Value) :
    (bindAll scope names vs).erase = Eval.bindAll scope names vs := by
  induction names generalizing vs with
  | nil => rfl
  | cons name names ih =>
      cases vs with
      | nil => rfl
      | cons v vs =>
          unfold bindAll Eval.bindAll
          rw [erase_bind, erase_bindName]
          congr 1
          funext _
          exact ih vs

/-- A call evaluates the body by a step in which the record is kept, and erases to a call by the
erased step. -/
theorem erase_apply (stepIn : ScopeId → Step) (callee : Value) (arguments : List Value) :
    (apply stepIn callee arguments).erase =
      Eval.apply (fun scope n => (stepIn scope n).erase) callee arguments := by
  cases callee with
  | function id parameters body captured =>
      simp only [apply, Eval.apply]
      split
      · rfl
      · simp only [erase_bind, erase_lift, erase_bindAll, erase_statements, erase_pure]
  | _ => rfl

/-- Without its record, the evaluation is that of the language. -/
theorem erase_evaluate (levels : Nat) (scope : ScopeId) (node : Node) :
    (evaluate levels scope node).erase = Scriptlet.evaluate levels scope node := by
  induction levels generalizing scope node with
  | zero => rfl
  | succ levels ih =>
      rw [evaluate, erase_noting]
      cases node with
      | ret t found =>
          cases found <;>
            simp only [rule, Scriptlet.evaluate, erase_withValue, erase_map, erase_lift, ih]
      | conditional t condition consequence alternative =>
          simp only [rule, Scriptlet.evaluate, erase_withValue, ih]
          congr 1
          funext v
          split
          · simp only [erase_branch, ih]
          · cases alternative <;> simp only [erase_branch, erase_pure, ih]
      | array t nodes =>
          simp only [rule, Scriptlet.evaluate, erase_bind, erase_values, ih]
          congr 1
          funext found
          cases found <;> rfl
      | hash t nodes =>
          simp only [rule, Scriptlet.evaluate, erase_bind, erase_pairs, ih]
          congr 1
          funext found
          cases found <;> rfl
      | call t callee nodes =>
          simp only [rule, Scriptlet.evaluate, erase_withValue, erase_bind, erase_values, ih]
          congr 1
          funext f
          congr 1
          funext found
          cases found with
          | ok arguments => simp only [erase_map, erase_apply, ih]
          | error reason => rfl
      | _ =>
          simp only [rule, Scriptlet.evaluate, erase_withValue, erase_bind, erase_statements,
            erase_value, erase_map, erase_lift, erase_bindName, erase_pure, ih]

end Traced

end Scriptlet
