import Scriptlet.Parse.Cursor
import Scriptlet.Scope.Heap
import Scriptlet.Value.Display

/-!
The state that evaluation works on, and the outcomes of evaluation. Evaluation is done with a
result, or breaks off at a tree that follows no rule of the language, or gives up because it has
become nested more deeply than it was told to follow. In each case the machine stays as it was left.
-/

namespace Scriptlet

/-! Notes that a run leaves for debugging, each under the name of the part it comes from. -/

inductive Note where
  | parseError (diagnostic : Diagnostic)
  | closureMade (parameters : List String)
  | applying (callee : Value) (arguments : Nat)
  | loadingAliases (path : String)
  | aliasesConfigured (count : Nat)
  | readingScript (path : String)
  | modeSwitched (mode : String)

/-- The line of a note. The scope that a function captures is not told apart from others. -/
def Note.line : Note → String
  | .parseError diagnostic => "toy.toy_parser: parse error: " ++ diagnostic.message
  | .closureMade parameters =>
    "toy.toy_evaluator: closure created: fn(" ++ ", ".intercalate parameters ++
      ") captured env 0x?"
  | .applying callee arguments =>
    "toy.toy_evaluator: applying " ++ callee.display ++ " to " ++ toString arguments ++
      " argument(s)"
  | .loadingAliases path => "toy.toy_uimap: loading keyword aliases from " ++ path
  | .aliasesConfigured count =>
    "toy.toy_uimap: configured " ++ toString count ++ " keyword alias(es)"
  | .readingScript path => "toy.toy_cli: reading " ++ path
  | .modeSwitched mode => "toy.toy_repl: repl mode switched to " ++ mode

/-! Machines and outcomes. -/

structure Machine where
  heap : Heap
  /-- The number for the next value that needs one. -/
  nextId : Nat
  /-- Lines printed so far. -/
  printed : Array String
  /-- Notes left so far. -/
  notes : Array Note

def Machine.empty : Machine :=
  ⟨.empty, 0, #[], #[]⟩

/-- A machine with one empty scope, and that scope. -/
def Machine.withScope : ScopeId × Machine :=
  let (scope, heap) := Heap.empty.enclose none
  (scope, { Machine.empty with heap })

/-- Lines as they are printed, each with its newline. -/
def Machine.output (m : Machine) : String :=
  m.printed.foldl (fun text line => text ++ line ++ "\n") ""

/-- A tree that evaluation has no rule for. The parser never builds one. -/
inductive Breach where
  /-- No rule for this node. -/
  | noRule (node : Node)
  /-- A node without a value where a value is needed. -/
  | noValue (node : Node)

def Breach.message : Breach → String
  | .noRule node => "No evaluator method for node kind '" ++ node.kind ++ "' " ++ node.token.place
  | .noValue node =>
    "expression of kind '" ++ node.kind ++ "' produced no value " ++ node.token.place

inductive Outcome (α : Type) where
  | done (value : α) (machine : Machine)
  | broken (breach : Breach) (machine : Machine)
  | tooDeep (machine : Machine)

def Outcome.machine {α : Type} : Outcome α → Machine
  | .done _ m | .broken _ m | .tooDeep m => m

def Eval (α : Type) : Type :=
  Machine → Outcome α

namespace Eval

@[always_inline, inline]
def pure {α : Type} (a : α) : Eval α :=
  fun m => .done a m

@[always_inline, inline]
def bind {α β : Type} (e : Eval α) (next : α → Eval β) : Eval β := fun m =>
  match e m with
  | .done a m => next a m
  | .broken breach m => .broken breach m
  | .tooDeep m => .tooDeep m

@[always_inline]
instance : Monad Eval where
  pure := Eval.pure
  bind := Eval.bind

/-- What comes after a computation that is done goes on from the machine it left. -/
theorem bind_done {α β : Type} {e : Eval α} {a : α} {m m' : Machine} (h : e m = .done a m')
    (next : α → Eval β) : (e >>= next) m = next a m' := by
  show Eval.bind e next m = next a m'
  rw [Eval.bind, h]

def tooDeep {α : Type} : Eval α :=
  fun m => .tooDeep m

def breakOff {α : Type} (breach : Breach) : Eval α :=
  fun m => .broken breach m

/-- A number that no value has yet. -/
def freshId : Eval Nat :=
  fun m => .done m.nextId { m with nextId := m.nextId + 1 }

def newArray (elements : List Value) : Eval Value := do
  return .array (← freshId) elements

def newHash (pairs : List (Key × Value)) : Eval Value := do
  return .hash (← freshId) pairs

def newReturned (value : Value) : Eval Value := do
  return .returned (← freshId) value

def note (n : Note) : Eval Unit :=
  fun m => .done () { m with notes := m.notes.push n }

def printLine (line : String) : Eval Unit :=
  fun m => .done () { m with printed := m.printed.push line }

def lookup (scope : ScopeId) (name : String) : Eval (Option Value) :=
  fun m => .done (m.heap.get? scope name) m

def bindName (scope : ScopeId) (name : String) (value : Value) : Eval Unit :=
  fun m => .done () { m with heap := m.heap.bind scope name value }

def newScope (outer : Option ScopeId) : Eval ScopeId := fun m =>
  let (scope, heap) := m.heap.enclose outer
  .done scope { m with heap }

end Eval

end Scriptlet
