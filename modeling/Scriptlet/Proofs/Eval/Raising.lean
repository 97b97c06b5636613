import Scriptlet.Proofs.Eval.ErrorFree

/-!
Evaluation with errors as exceptions. An error that comes up is raised and ends
everything at once; no rule looks at the outcome of another to find one. The values
that this evaluation binds, stores and returns hold no error by their type, and
neither do the scopes it works on.
-/

namespace Scriptlet

/-- A value in which no error is stored. -/
structure Datum where
  value : Value
  errorFree : value.errorFree = true

namespace Datum

def null : Datum := ⟨.null, rfl⟩

def unwrap (d : Datum) : Datum :=
  ⟨d.value.unwrap, Value.errorFree_unwrap d.errorFree⟩

def isReturned (d : Datum) : Bool :=
  d.value.tag = .returned

def array (id : Nat) (elements : List Datum) : Datum where
  value := .array id (elements.map Datum.value)
  errorFree := by
    rw [Value.errorFree_array]
    intro v hv
    obtain ⟨d, _, rfl⟩ := List.mem_map.mp hv
    exact d.errorFree

end Datum

/-- Pairs of a hash in which no error is stored. -/
structure Entries where
  pairs : List (Key × Value)
  errorFree : ∀ pair ∈ pairs, pair.2.errorFree = true

def Entries.empty : Entries := ⟨[], by simp⟩

def Entries.insert (e : Entries) (key : Key) (d : Datum) : Entries :=
  ⟨insertPair e.pairs key d.value, Value.errorFree_insertPair e.errorFree d.errorFree⟩

/-- A machine in whose scopes no error is stored. -/
structure SoundMachine where
  machine : Machine
  errorFree : machine.heap.ErrorFree

/-- How evaluation ends if an error ends it at once. -/
inductive Attempt (α : Type) where
  | done (value : α) (machine : SoundMachine)
  | raised (reason : RuntimeError) (machine : SoundMachine)
  | broken (breach : Breach) (machine : SoundMachine)
  | tooDeep (machine : SoundMachine)

def Raising (α : Type) : Type :=
  SoundMachine → Attempt α

namespace Raising

def pure {α : Type} (a : α) : Raising α :=
  fun m => .done a m

def bind {α β : Type} (e : Raising α) (next : α → Raising β) : Raising β := fun m =>
  match e m with
  | .done a m => next a m
  | .raised reason m => .raised reason m
  | .broken breach m => .broken breach m
  | .tooDeep m => .tooDeep m

instance : Monad Raising where
  pure := Raising.pure
  bind := Raising.bind

def raise {α : Type} (reason : RuntimeError) : Raising α :=
  fun m => .raised reason m

def tooDeep {α : Type} : Raising α :=
  fun m => .tooDeep m

def breakOff {α : Type} (breach : Breach) : Raising α :=
  fun m => .broken breach m

def freshId : Raising Nat := fun m =>
  .done m.machine.nextId ⟨{ m.machine with nextId := m.machine.nextId + 1 }, m.errorFree⟩

def newArray (elements : List Datum) : Raising Datum := do
  return .array (← freshId) elements

def newHash (entries : Entries) : Raising Datum := do
  return ⟨.hash (← freshId) entries.pairs, Value.errorFree_hash.mpr entries.errorFree⟩

def newReturned (d : Datum) : Raising Datum := do
  return ⟨.returned (← freshId) d.value, d.errorFree⟩

def note (n : Note) : Raising Unit := fun m =>
  .done () ⟨{ m.machine with notes := m.machine.notes.push n }, m.errorFree⟩

def lookup (scope : ScopeId) (name : String) : Raising (Option Datum) := fun m =>
  match h : m.machine.heap.get? scope name with
  | some v => .done (some ⟨v, m.errorFree.get? h⟩) m
  | none => .done none m

def bindName (scope : ScopeId) (name : String) (d : Datum) : Raising Unit := fun m =>
  .done () ⟨{ m.machine with heap := m.machine.heap.bind scope name d.value },
    m.errorFree.bind scope name d.errorFree⟩

def newScope (outer : Option ScopeId) : Raising ScopeId := fun m =>
  .done (m.machine.heap.enclose outer).1
    ⟨{ m.machine with heap := (m.machine.heap.enclose outer).2 }, m.errorFree.enclose outer⟩

/-- Goes on with what an operator gives, or raises the error that it gives. -/
def settle (v : Value) (h : v.Settled) : Raising Datum := fun m =>
  match hreason : v.reason? with
  | some reason => .raised reason m
  | none => .done ⟨v, h.errorFree_of_reason? hreason⟩ m

theorem ends_apply (f : Builtin) (arguments : List Datum) :
    Builtin.Ends (f.apply (arguments.map Datum.value)) := by
  apply f.ends_apply
  intro v hv
  obtain ⟨d, _, rfl⟩ := List.mem_map.mp hv
  exact d.errorFree

/-- Calls a function that every program has, and raises the error that it gives. -/
def callBuiltin (f : Builtin) (arguments : List Datum) : Raising Datum := fun m =>
  match hrun : f.apply (arguments.map Datum.value) m.machine with
  | .done v after =>
    have hafter : v.Settled ∧ after.heap = m.machine.heap := (ends_apply f arguments).of_done hrun
    settle v hafter.1 ⟨after, hafter.2 ▸ m.errorFree⟩
  | .broken _ _ => ((ends_apply f arguments).not_broken hrun).elim
  | .tooDeep _ => ((ends_apply f arguments).not_tooDeep hrun).elim

abbrev Step := Node → Raising (Option Datum)

def value (step : Step) (node : Node) : Raising Datum := do
  match ← step node with
  | some d => return d
  | none => breakOff (.noValue node)

/-- Evaluates statements one after the other up to the first return. -/
def statements (step : Step) : List Node → Option Datum → Raising (Option Datum)
  | [], result => return result
  | node :: nodes, _ => do
    let result ← step node
    if result.any Datum.isReturned then return result else statements step nodes result

def values (step : Step) : List Node → Raising (List Datum)
  | [] => return []
  | node :: nodes => do
    let first ← value step node
    let others ← values step nodes
    return first :: others

def pairs (step : Step) : List (Node × Node) → Entries → Raising Entries
  | [], found => return found
  | (keyNode, valueNode) :: nodes, found => do
    let key ← value step keyNode
    match key.value.key? with
    | none => raise (.badKey key.value.tag)
    | some k =>
      let d ← value step valueNode
      pairs step nodes (found.insert k d)

def bindAll (scope : ScopeId) : List String → List Datum → Raising Unit
  | name :: names, d :: ds => do
    bindName scope name d
    bindAll scope names ds
  | _, _ => return ()

def apply (stepIn : ScopeId → Step) (callee : Datum) (arguments : List Datum) :
    Raising Datum :=
  match callee.value with
  | .function _ parameters body captured =>
    if arguments.length ≠ parameters.length then
      raise (.argumentCount parameters.length arguments.length)
    else do
      note (.applying callee.value arguments.length)
      let scope ← newScope (some captured)
      bindAll scope parameters arguments
      let result ← statements (stepIn scope) body.statements none
      return (result.getD .null).unwrap
  | .builtin f => callBuiltin f arguments
  | other => raise (.notFunction other.tag)

def ident (scope : ScopeId) (name : String) : Raising Datum := do
  match ← lookup scope name with
  | some d => return d
  | none =>
    match Builtin.ofName? name with
    | some f => return ⟨.builtin f, rfl⟩
    | none => raise (.notFound name)

def branch (step : Step) (block : Node) : Raising (Option Datum) := do
  let result ← statements step block.statements none
  return some (result.getD .null)

def function (scope : ScopeId) (parameters : List Ident) (body : Node) : Raising Datum := do
  let names := parameters.map Ident.name
  note (.closureMade names)
  return ⟨.function (← freshId) names body scope, rfl⟩

/-- Evaluates a node in a scope, at most `levels` deep, and raises the first error that
comes up. -/
def evaluate : (levels : Nat) → ScopeId → Node → Raising (Option Datum)
  | 0, _, _ => tooDeep
  | levels + 1, scope, node =>
    let step := evaluate levels scope
    match node with
    | .bare _ => breakOff (.noRule node)
    | .program nodes => do return (← statements step nodes none).map Datum.unwrap
    | .block _ nodes => statements step nodes none
    | .binding _ name valueNode => do
      bindName scope name.name (← value step valueNode)
      return none
    | .ret _ none => some <$> newReturned .null
    | .ret _ (some valueNode) => do some <$> newReturned (← value step valueNode)
    | .expression _ valueNode => some <$> value step valueNode
    | .ident id => some <$> ident scope id.name
    | .integer _ n => return some ⟨.integer n, rfl⟩
    | .boolean _ b => return some ⟨.boolean b, rfl⟩
    | .text _ s => return some ⟨.text s, rfl⟩
    | .array _ nodes => do some <$> newArray (← values step nodes)
    | .hash _ nodes => do some <$> newHash (← pairs step nodes .empty)
    | .unary _ operator operand => do
      let d ← value step operand
      some <$> settle (d.value.unary operator) (Value.settled_unary operator d.value)
    | .binary _ left operator right => do
      let l ← value step left
      let r ← value step right
      some <$> settle (l.value.binary operator r.value)
        (Value.settled_binary operator l.value r.value)
    | .conditional _ condition consequence alternative => do
      let d ← value step condition
      if d.value.isTruthy then branch step consequence
      else
        match alternative with
        | some block => branch step block
        | none => return some .null
    | .function _ parameters body => some <$> function scope parameters body
    | .call _ callee nodes => do
      let f ← value step callee
      let arguments ← values step nodes
      some <$> apply (evaluate levels) f arguments
    | .index _ collection place => do
      let c ← value step collection
      let i ← value step place
      some <$> settle (c.value.index i.value) (Value.settled_index c.errorFree i.value)

end Raising

end Scriptlet
