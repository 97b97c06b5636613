import Scriptlet.Parse.Cursor
import Scriptlet.Tree.Node

/-!
Parsers and their outcomes. A parser is done with a value, or refuses after recording what is
wrong, or gives up because the text is nested more deeply than it was told to follow. In each case
it says where it stopped.
-/

namespace Scriptlet

inductive Parsed (α : Type) where
  | done (value : α) (cursor : Cursor)
  | refused (cursor : Cursor)
  | tooDeep (cursor : Cursor)

def Parse (α : Type) : Type :=
  Cursor → Parsed α

namespace Parse

@[always_inline, inline]
def pure {α : Type} (a : α) : Parse α :=
  fun c => .done a c

@[always_inline, inline]
def bind {α β : Type} (p : Parse α) (next : α → Parse β) : Parse β := fun c =>
  match p c with
  | .done a c => next a c
  | .refused c => .refused c
  | .tooDeep c => .tooDeep c

@[always_inline]
instance : Monad Parse where
  pure := Parse.pure
  bind := Parse.bind

@[always_inline, inline]
def cursor : Parse Cursor :=
  fun c => .done c c

@[always_inline, inline]
def current : Parse Token :=
  fun c => .done c.current c

@[always_inline, inline]
def advance : Parse Unit :=
  fun c => .done () c.advance

@[always_inline, inline]
def aheadIs (kind : Kind) : Parse Bool :=
  fun c => .done (c.ahead.kind = kind) c

def refuse {α : Type} (reason : Diagnostic) : Parse α :=
  fun c => .refused (c.record reason)

def tooDeep {α : Type} : Parse α :=
  fun c => .tooDeep c

/-- Moves on to a token of this kind, or refuses. -/
def expect (kind : Kind) : Parse Unit := fun c =>
  if c.ahead.kind = kind then .done () c.advance
  else .refused (c.record (.expected kind c.ahead))

/-- Moves on if the token ahead is of this kind. -/
def skipIf (kind : Kind) : Parse Unit := fun c =>
  if c.ahead.kind = kind then .done () c.advance else .done () c

/-- Runs the parser of a statement that began among `depth` open braces. A refused statement is
skipped, and one during which something was recorded is left out. -/
def recovering (depth : Int) (statement : Parse Node) : Parse (Option Node) := fun c =>
  match statement c with
  | .done n after =>
    if c.diagnostics.length < after.diagnostics.length then .done none after
    else .done (some n) after
  | .refused after => .done none (after.synchronize depth)
  | .tooDeep after => .tooDeep after

end Parse

end Scriptlet
