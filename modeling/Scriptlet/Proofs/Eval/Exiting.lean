import Scriptlet.Eval.Evaluate
import Scriptlet.Proofs.Eval.Yield
import Scriptlet.Proofs.Scope.Contents

/-!
Evaluation in which a return leaves at once. What it leaves is the nearest call, or the
program; everything in between is passed over, and no rule looks at the outcome of
another to find a return. The values that this evaluation binds, stores, passes and
works on hold no return wrapper by their type, and neither do the scopes it works on.
Errors are values here, as they are in the language.
-/

namespace Scriptlet

/-- The value is no return wrapper and holds none. -/
def Value.Unwrapped (v : Value) : Prop :=
  v.Every fun u => u.tag ≠ .returned

/-- No return wrapper is stored in the scopes. -/
def Heap.Unwrapped (h : Heap) : Prop :=
  ∀ v, h.Stores v → v.Unwrapped

theorem Value.tag_ne_of_number? {v : Value} (h : v.number? = none) : v.tag ≠ .returned := by
  cases v with
  | returned id value => cases h
  | _ => exact nofun

theorem Value.Unwrapped.flat {v : Value} (h : v.number? = none) : v.Unwrapped :=
  Value.Every.flat Value.tag_ne_of_number? h

/-- A value without return wrappers. -/
structure Plain where
  value : Value
  unwrapped : value.Unwrapped

namespace Plain

/-- A value that was not made under a number. -/
def flat (v : Value) (h : v.number? = none) : Plain :=
  ⟨v, .flat h⟩

def null : Plain := flat .null rfl

def error (reason : RuntimeError) : Plain := flat (.error reason) rfl

def array (id : Nat) (elements : List Plain) : Plain where
  value := .array id (elements.map Plain.value)
  unwrapped := by
    apply Value.Every.intro nofun
    intro v hv
    obtain ⟨d, _, rfl⟩ := List.mem_map.mp hv
    exact d.unwrapped

def function (id : Nat) (parameters : List String) (body : Node) (scope : ScopeId) : Plain where
  value := .function id parameters body scope
  unwrapped := .intro nofun nofun

def index (d place : Plain) : Plain :=
  ⟨d.value.index place.value, .index Value.tag_ne_of_number? d.unwrapped place.value⟩

end Plain

/-- Pairs of a hash without return wrappers. -/
structure PlainPairs where
  pairs : List (Key × Value)
  unwrapped : ∀ pair ∈ pairs, pair.2.Unwrapped

namespace PlainPairs

def empty : PlainPairs := ⟨[], nofun⟩

def insert (entries : PlainPairs) (key : Key) (d : Plain) : PlainPairs where
  pairs := insertPair entries.pairs key d.value
  unwrapped pair hpair := by
    rcases Value.mem_insertPair hpair with rfl | hold
    · exact d.unwrapped
    · exact entries.unwrapped pair hold

end PlainPairs

/-- A machine in whose scopes no return wrapper is stored. -/
structure PlainMachine where
  machine : Machine
  unwrapped : machine.heap.Unwrapped

/-- How evaluation ends if a return leaves at once. -/
inductive Exit (α : Type) where
  | done (value : α) (machine : PlainMachine)
  | left (value : Plain) (machine : PlainMachine)
  | broken (breach : Breach) (machine : PlainMachine)
  | tooDeep (machine : PlainMachine)

def Exiting (α : Type) : Type :=
  PlainMachine → Exit α

namespace Exiting

def pure {α : Type} (a : α) : Exiting α :=
  fun m => .done a m

def bind {α β : Type} (e : Exiting α) (next : α → Exiting β) : Exiting β := fun m =>
  match e m with
  | .done a m => next a m
  | .left d m => .left d m
  | .broken breach m => .broken breach m
  | .tooDeep m => .tooDeep m

instance : Monad Exiting where
  pure := Exiting.pure
  bind := Exiting.bind

def tooDeep {α : Type} : Exiting α :=
  fun m => .tooDeep m

def breakOff {α : Type} (breach : Breach) : Exiting α :=
  fun m => .broken breach m

def freshId : Exiting Nat := fun m =>
  .done m.machine.nextId ⟨{ m.machine with nextId := m.machine.nextId + 1 }, m.unwrapped⟩

/-- Leaves with a value. Leaving takes a number, as making a value does. -/
def leave {α : Type} (d : Plain) : Exiting α := do
  let _ ← freshId
  fun m => .left d m

/-- What is left is left no further than here. -/
def catching (e : Exiting (Option Plain)) : Exiting (Option Plain) := fun m =>
  match e m with
  | .left d m => .done (some d) m
  | other => other

def newArray (elements : List Plain) : Exiting Plain := do
  return .array (← freshId) elements

def newHash (entries : PlainPairs) : Exiting Plain := do
  return ⟨.hash (← freshId) entries.pairs, .hash nofun entries.unwrapped⟩

def note (n : Note) : Exiting Unit := fun m =>
  .done () ⟨{ m.machine with notes := m.machine.notes.push n }, m.unwrapped⟩

def lookup (scope : ScopeId) (name : String) : Exiting (Option Plain) := fun m =>
  match h : m.machine.heap.get? scope name with
  | some v => .done (some ⟨v, m.unwrapped v (Heap.stores_of_get? h)⟩) m
  | none => .done none m

theorem unwrapped_bind {h : Heap} (hheap : h.Unwrapped) (scope : ScopeId) (name : String)
    (d : Plain) : (h.bind scope name d.value).Unwrapped := by
  intro v hv
  rcases Heap.stores_bind hv with rfl | hold
  · exact d.unwrapped
  · exact hheap v hold

def bindName (scope : ScopeId) (name : String) (d : Plain) : Exiting Unit := fun m =>
  .done () ⟨{ m.machine with heap := m.machine.heap.bind scope name d.value },
    unwrapped_bind m.unwrapped scope name d⟩

def newScope (outer : Option ScopeId) : Exiting ScopeId := fun m =>
  .done (m.machine.heap.enclose outer).1
    ⟨{ m.machine with heap := (m.machine.heap.enclose outer).2 },
      fun v hv => m.unwrapped v (Heap.stores_enclose hv)⟩

theorem yields_unwrapped {arguments : List Plain} {m m' : Machine} {v : Value}
    (hm : m.heap.Unwrapped) (h : Builtin.Yields (arguments.map Plain.value) m v m') :
    v.Unwrapped ∧ m'.heap.Unwrapped := by
  have harguments : ∀ v ∈ arguments.map Plain.value, v.Unwrapped := by
    intro v hv
    obtain ⟨d, _, rfl⟩ := List.mem_map.mp hv
    exact d.unwrapped
  cases h with
  | flat hflat hheap _ =>
      constructor
      · exact .flat hflat
      · rw [hheap]
        exact hm
  | found hmem => exact ⟨Builtin.every_supply harguments hmem, hm⟩
  | array hsub =>
      constructor
      · apply Value.Every.intro nofun
        intro v hv
        exact Builtin.every_supply harguments (hsub hv)
      · exact hm

def callBuiltin (f : Builtin) (arguments : List Plain) : Exiting Plain := fun m =>
  match hrun : f.apply (arguments.map Plain.value) m.machine with
  | .done v after =>
    have hafter := yields_unwrapped m.unwrapped (Builtin.Gives.of_done (f.gives_apply _) hrun)
    .done ⟨v, hafter.1⟩ ⟨after, hafter.2⟩
  | .broken _ _ => (Builtin.Gives.not_broken (f.gives_apply _) hrun).elim
  | .tooDeep _ => (Builtin.Gives.not_tooDeep (f.gives_apply _) hrun).elim

abbrev Step := Node → Exiting (Option Plain)

def value (step : Step) (node : Node) : Exiting Plain := do
  match ← step node with
  | some d => return d
  | none => breakOff (.noValue node)

def withValue (step : Step) (node : Node) (next : Plain → Exiting (Option Plain)) :
    Exiting (Option Plain) := do
  let d ← value step node
  if d.value.isError then return some d else next d

/-- Evaluates statements one after the other up to the first error. -/
def statements (step : Step) : List Node → Option Plain → Exiting (Option Plain)
  | [], result => return result
  | node :: nodes, _ => do
    match ← step node with
    | some d => if d.value.isError then return some d else statements step nodes (some d)
    | none => statements step nodes none

def values (step : Step) : List Node → List Plain →
    Exiting (Except RuntimeError (List Plain))
  | [], found => return .ok found.reverse
  | node :: nodes, found => do
    let d ← value step node
    match d.value with
    | .error reason => return .error reason
    | _ => values step nodes (d :: found)

def pairs (step : Step) : List (Node × Node) → PlainPairs →
    Exiting (Except RuntimeError PlainPairs)
  | [], found => return .ok found
  | (keyNode, valueNode) :: nodes, found => do
    let key ← value step keyNode
    match key.value with
    | .error reason => return .error reason
    | _ =>
      match key.value.key? with
      | none => return .error (.badKey key.value.tag)
      | some k =>
        let d ← value step valueNode
        match d.value with
        | .error reason => return .error reason
        | _ => pairs step nodes (found.insert k d)

def bindAll (scope : ScopeId) : List String → List Plain → Exiting Unit
  | name :: names, d :: ds => do
    bindName scope name d
    bindAll scope names ds
  | _, _ => return ()

def apply (stepIn : ScopeId → Step) (callee : Plain) (arguments : List Plain) :
    Exiting Plain :=
  match callee.value with
  | .function _ parameters body captured =>
    if arguments.length ≠ parameters.length then
      return .error (.argumentCount parameters.length arguments.length)
    else do
      note (.applying callee.value arguments.length)
      let scope ← newScope (some captured)
      bindAll scope parameters arguments
      let result ← catching (statements (stepIn scope) body.statements none)
      return result.getD .null
  | .builtin f => callBuiltin f arguments
  | other => return .error (.notFunction other.tag)

def ident (scope : ScopeId) (name : String) : Exiting Plain := do
  match ← lookup scope name with
  | some d => return d
  | none =>
    match Builtin.ofName? name with
    | some f => return .flat (.builtin f) rfl
    | none => return .error (.notFound name)

def branch (step : Step) (block : Node) : Exiting (Option Plain) := do
  let result ← statements step block.statements none
  return some (result.getD .null)

def function (scope : ScopeId) (parameters : List Ident) (body : Node) : Exiting Plain := do
  let names := parameters.map Ident.name
  note (.closureMade names)
  return .function (← freshId) names body scope

/-- Evaluates a node in a scope, at most `levels` deep. A return leaves the nearest call, or
the program. -/
def evaluate : (levels : Nat) → ScopeId → Node → Exiting (Option Plain)
  | 0, _, _ => tooDeep
  | levels + 1, scope, node =>
    let step := evaluate levels scope
    match node with
    | .bare _ => breakOff (.noRule node)
    | .program nodes => catching (statements step nodes none)
    | .block _ nodes => statements step nodes none
    | .binding _ name valueNode => withValue step valueNode fun d => do
      bindName scope name.name d
      return none
    | .ret _ none => leave .null
    | .ret _ (some valueNode) => withValue step valueNode fun d => leave d
    | .expression _ valueNode => some <$> value step valueNode
    | .ident id => some <$> ident scope id.name
    | .integer _ n => return some (.flat (.integer n) rfl)
    | .boolean _ b => return some (.flat (.boolean b) rfl)
    | .text _ s => return some (.flat (.text s) rfl)
    | .array _ nodes => do
      match ← values step nodes [] with
      | .ok elements => some <$> newArray elements
      | .error reason => return some (.error reason)
    | .hash _ nodes => do
      match ← pairs step nodes .empty with
      | .ok found => some <$> newHash found
      | .error reason => return some (.error reason)
    | .unary _ operator operand => withValue step operand fun d =>
      return some (.flat (d.value.unary operator) (Value.number?_unary operator d.value))
    | .binary _ left operator right =>
      withValue step left fun l => withValue step right fun r =>
        return some (.flat (l.value.binary operator r.value)
          (Value.number?_binary operator l.value r.value))
    | .conditional _ condition consequence alternative => withValue step condition fun d =>
      if d.value.isTruthy then branch step consequence
      else
        match alternative with
        | some block => branch step block
        | none => return some .null
    | .function _ parameters body => some <$> function scope parameters body
    | .call _ callee nodes => withValue step callee fun f => do
      match ← values step nodes [] with
      | .ok arguments => some <$> apply (evaluate levels) f arguments
      | .error reason => return some (.error reason)
    | .index _ collection place =>
      withValue step collection fun c => withValue step place fun i =>
        return some (c.index i)

end Exiting

end Scriptlet
