import Scriptlet.Value.Basic

/-!
Scopes: what names stand for, and where to look on. A scope is known by its number in the order of
creation. Looking a name up goes from a scope outward along its chain of enclosing scopes; binding
a name only ever changes the scope in which it is bound.
-/

namespace Scriptlet

structure Scope where
  /-- Names in the order in which they were first bound. -/
  bindings : List (String × Value)
  outer : Option ScopeId

namespace Scope

def get? (s : Scope) (name : String) : Option Value :=
  s.bindings.lookup name

/-- Binds a name, or binds it anew at its old place. -/
def bind (s : Scope) (name : String) (value : Value) : Scope :=
  { s with bindings := go s.bindings }
where
  go : List (String × Value) → List (String × Value)
    | [] => [(name, value)]
    | (n, v) :: rest => if n = name then (name, value) :: rest else (n, v) :: go rest

end Scope

structure Heap where
  scopes : Array Scope

namespace Heap

def empty : Heap := ⟨#[]⟩

/-- Makes a scope inside another, or one that stands alone. -/
def enclose (h : Heap) (outer : Option ScopeId) : ScopeId × Heap :=
  (h.scopes.size, ⟨h.scopes.push ⟨[], outer⟩⟩)

/-- A scope and those around it, from the inside out. As a scope is only ever made inside an older
one, a chain has no more links than there are scopes. -/
def chain (h : Heap) (scope : ScopeId) : List ScopeId :=
  go h.scopes.size scope
where
  go : Nat → ScopeId → List ScopeId
    | 0, _ => []
    | fuel + 1, scope =>
      match h.scopes[scope]? with
      | none => []
      | some s =>
        match s.outer with
        | none => [scope]
        | some outer => scope :: go fuel outer

/-- What a name stands for in one scope, without those around it. -/
def own? (h : Heap) (scope : ScopeId) (name : String) : Option Value :=
  h.scopes[scope]?.bind (·.get? name)

/-- What a name stands for, seen from a scope. -/
def get? (h : Heap) (scope : ScopeId) (name : String) : Option Value :=
  (h.chain scope).findSome? (h.own? · name)

def bind (h : Heap) (scope : ScopeId) (name : String) (value : Value) : Heap :=
  ⟨h.scopes.modify scope (·.bind name value)⟩

/-- All names that stand for something seen from a scope, in order and once each. -/
def names (h : Heap) (scope : ScopeId) : List String :=
  let bound (i : ScopeId) := (h.scopes[i]?.map (·.bindings.map Prod.fst)).getD []
  ((h.chain scope).flatMap bound).eraseDups.mergeSort (· ≤ ·)

end Heap

end Scriptlet
