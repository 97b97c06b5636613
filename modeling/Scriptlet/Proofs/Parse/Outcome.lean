import Scriptlet.Parse.Grammar

/-!
Conditions on how a parser ends. `Parsed.Meets` asks one thing of the value and
cursor of a parser that is done, another of the cursor of one that refuses, and
a third of one that gives up. The condition of a sequence is that of its first
part, with the condition of the rest in place of the first demand, so the rules
of the language are taken apart by rewriting and never by cases on outcomes.
-/

namespace Scriptlet

variable {α β : Type}

namespace Cursor

@[simp] theorem record_diagnostics (c : Cursor) (d : Diagnostic) :
    (c.record d).diagnostics = c.diagnostics ++ [d] := rfl

@[simp] theorem record_depth (c : Cursor) (d : Diagnostic) :
    (c.record d).depth = c.depth := rfl

@[simp] theorem record_current (c : Cursor) (d : Diagnostic) :
    (c.record d).current = c.current := rfl

@[simp] theorem advance_current (c : Cursor) : c.advance.current = c.ahead := by
  unfold advance
  cases c.rest <;> rfl

@[simp] theorem advance_diagnostics (c : Cursor) :
    c.advance.diagnostics = c.diagnostics := by
  unfold advance
  cases c.rest <;> rfl

@[simp] theorem advance_depth (c : Cursor) :
    c.advance.depth = depthAfter c.depth c.ahead.kind := by
  unfold advance
  cases c.rest <;> rfl

end Cursor

namespace Parsed

def map (f : α → β) : Parsed α → Parsed β
  | .done a c => .done (f a) c
  | .refused c => .refused c
  | .tooDeep c => .tooDeep c

def Meets (outcome : Parsed α) (done : α → Cursor → Prop)
    (refused tooDeep : Cursor → Prop) : Prop :=
  match outcome with
  | .done a c => done a c
  | .refused c => refused c
  | .tooDeep c => tooDeep c

variable {done done' : α → Cursor → Prop}
variable {refused refused' tooDeep tooDeep' : Cursor → Prop}

@[simp] theorem done_meets (a : α) (c : Cursor) :
    (Parsed.done a c).Meets done refused tooDeep ↔ done a c := Iff.rfl

@[simp] theorem refused_meets (c : Cursor) :
    (Parsed.refused c : Parsed α).Meets done refused tooDeep ↔ refused c := Iff.rfl

@[simp] theorem tooDeep_meets (c : Cursor) :
    (Parsed.tooDeep c : Parsed α).Meets done refused tooDeep ↔ tooDeep c := Iff.rfl

/-- What is asked of an outcome can be weakened end by end. -/
theorem Meets.mono {outcome : Parsed α} (h : outcome.Meets done refused tooDeep)
    (hdone : ∀ a c, done a c → done' a c)
    (hrefused : ∀ c, refused c → refused' c)
    (htooDeep : ∀ c, tooDeep c → tooDeep' c) :
    outcome.Meets done' refused' tooDeep' := by
  cases outcome with
  | done a c => exact hdone a c h
  | refused c => exact hrefused c h
  | tooDeep c => exact htooDeep c h

/-- What holds of the outcome may be used for each of the three demands. -/
theorem Meets.and {outcome : Parsed α} (h : outcome.Meets done refused tooDeep)
    (h' : outcome.Meets done' refused' tooDeep') :
    outcome.Meets (fun a c => done a c ∧ done' a c)
      (fun c => refused c ∧ refused' c) (fun c => tooDeep c ∧ tooDeep' c) := by
  cases outcome with
  | done a c => exact ⟨h, h'⟩
  | refused c => exact ⟨h, h'⟩
  | tooDeep c => exact ⟨h, h'⟩

end Parsed

namespace Parse

variable {done : α → Cursor → Prop} {refused tooDeep : Cursor → Prop}

@[simp] theorem pure_run (a : α) (c : Cursor) :
    (Pure.pure a : Parse α) c = .done a c := rfl

@[simp] theorem current_bind (next : Token → Parse α) (c : Cursor) :
    (current >>= next) c = next c.current c := rfl

@[simp] theorem cursor_bind (next : Cursor → Parse α) (c : Cursor) :
    (cursor >>= next) c = next c c := rfl

@[simp] theorem advance_bind (next : Unit → Parse α) (c : Cursor) :
    (advance >>= next) c = next () c.advance := rfl

@[simp] theorem aheadIs_bind (kind : Kind) (next : Bool → Parse α) (c : Cursor) :
    (aheadIs kind >>= next) c = next (decide (c.ahead.kind = kind)) c := rfl

@[simp] theorem refuse_bind (reason : Diagnostic) (next : α → Parse β) (c : Cursor) :
    ((refuse reason : Parse α) >>= next) c = .refused (c.record reason) := rfl

@[simp] theorem refuse_run (reason : Diagnostic) (c : Cursor) :
    (refuse reason : Parse α) c = .refused (c.record reason) := rfl

@[simp] theorem tooDeep_run (c : Cursor) :
    (Parse.tooDeep : Parse α) c = .tooDeep c := rfl

@[simp] theorem ite_run (condition : Prop) [Decidable condition]
    (p q : Parse α) (c : Cursor) :
    (if condition then p else q) c = if condition then p c else q c := by
  split <;> rfl

/-- A sequence goes on only from a first part that is done; the other ends are handed on. -/
theorem bind_run (p : Parse α) (next : α → Parse β) (c : Cursor) :
    (p >>= next) c =
      match p c with
      | .done a c' => next a c'
      | .refused c' => .refused c'
      | .tooDeep c' => .tooDeep c' := rfl

/-- Sequencing composes conditions: refusing and giving up pass through. -/
@[simp] theorem bind_meets (p : Parse α) (next : α → Parse β) (c : Cursor)
    (done : β → Cursor → Prop) :
    ((p >>= next) c).Meets done refused tooDeep ↔
      (p c).Meets (fun a c' => (next a c').Meets done refused tooDeep)
        refused tooDeep := by
  rw [bind_run]
  cases p c <;> rfl

theorem bind_done {p : Parse α} {a : α} {c c' : Cursor} (h : p c = .done a c')
    (next : α → Parse β) : (p >>= next) c = next a c' := by
  rw [bind_run, h]

/-- The one place where a rule asks for a kind of token, as a choice between going on
and refusing. -/
theorem expect_bind (kind : Kind) (next : Unit → Parse α) (c : Cursor) :
    (expect kind >>= next) c =
      if c.ahead.kind = kind then next () c.advance
      else .refused (c.record (.expected kind c.ahead)) := by
  by_cases hkind : c.ahead.kind = kind <;> simp [bind_run, expect, hkind]

/-- The same for a name, which goes into the tree with its token. -/
theorem identAhead_bind (next : Ident → Parse α) (c : Cursor) :
    (identAhead >>= next) c =
      if c.ahead.kind = .ident then next ⟨c.ahead, c.ahead.value⟩ c.advance
      else .refused (c.record (.expected .ident c.ahead)) := by
  rw [bind_run, identAhead, expect_bind]
  by_cases hkind : c.ahead.kind = .ident <;> simp [hkind]

/-- What is asked of either end of such a choice. -/
theorem expect_meets {kind : Kind} {c : Cursor} {done : Unit → Cursor → Prop}
    (hdone : c.ahead.kind = kind → done () c.advance)
    (hrefused : c.ahead.kind ≠ kind → refused (c.record (.expected kind c.ahead))) :
    (expect kind c).Meets done refused tooDeep := by
  unfold expect
  split
  next h => exact hdone h
  next h => exact hrefused h

theorem skipIf_meets {kind : Kind} {c : Cursor} {done : Unit → Cursor → Prop}
    (hskip : c.ahead.kind = kind → done () c.advance)
    (hstay : c.ahead.kind ≠ kind → done () c) :
    (skipIf kind c).Meets done refused tooDeep := by
  unfold skipIf
  split
  next h => exact hskip h
  next h => exact hstay h

/-- A refusal ends at the statement it comes up in. -/
theorem recovering_ne_refused (depth : Int) (statement : Parse Node) (c c' : Cursor) :
    recovering depth statement c ≠ .refused c' := by
  unfold recovering
  cases statement c with
  | done n after =>
      simp only
      split <;> simp
  | refused after => simp
  | tooDeep after => simp

/-! The rules that go by a kind of token, at a cursor. -/

/-- The two ways in which a number can be bad leave the same diagnostic. -/
theorem integerLiteral_run (c : Cursor) :
    integerLiteral c =
      match Numeral.integer? c.current.value with
      | some n =>
        if n ≤ Int64.maximum then .done (.integer c.current n) c
        else .refused (c.record (.badInteger c.current.value))
      | none => .refused (c.record (.badInteger c.current.value)) := by
  simp only [integerLiteral, current_bind]
  cases Numeral.integer? c.current.value with
  | none => rfl
  | some n => simp only [ite_run, pure_run, refuse_run]

/-- A statement is chosen by the kind of its first token alone. -/
theorem statement_run (nested : Nested) (c : Cursor) :
    statement nested c =
      match c.current.kind with
      | .keyword .letWord => bindingStatement nested c
      | .keyword .returnWord => returnStatement nested c
      | _ => expressionStatement nested c := by
  simp only [statement, current_bind]
  cases c.current.kind with
  | keyword word => cases word <;> rfl
  | _ => rfl

/-- So is what begins an expression. -/
theorem operand_run (nested : Nested) (c : Cursor) :
    operand nested c =
      match c.current.kind with
      | .ident => .done (.ident ⟨c.current, c.current.value⟩) c
      | .number => integerLiteral c
      | .text => .done (.text c.current c.current.value) c
      | .keyword .trueWord => .done (.boolean c.current true) c
      | .keyword .falseWord => .done (.boolean c.current false) c
      | .symbol .bang | .symbol .minus | .symbol .plus => unary nested c
      | .symbol .leftParen => grouped nested c
      | .keyword .ifWord => conditional nested c
      | .keyword .fnWord => functionLiteral nested c
      | .symbol .leftBracket => arrayLiteral nested c
      | .symbol .leftBrace => hashLiteral nested c
      | _ => .refused (c.record (.noExpression c.current)) := by
  simp only [operand, current_bind]
  cases c.current.kind with
  | keyword word => cases word <;> rfl
  | symbol mark => cases mark <;> rfl
  | _ => rfl

/-- An operator with its right side, at the operator. -/
def infixRest (nested : Nested) (left : Node) : Parse Node := do
  let t ← current
  advance
  let right ← nested t.kind.strength
  return .binary t left t.value right

/-- An index behind a collection, at the opening bracket. -/
def indexRest (nested : Nested) (left : Node) : Parse Node := do
  let t ← current
  advance
  let place ← nested lowest
  expect (.symbol .rightBracket)
  return .index t left place

/-- Arguments behind a callee, at the opening parenthesis. -/
def callRest (nested : Nested) (left : Node) : Parse Node := do
  let t ← current
  let arguments ← expressionList nested (.symbol .rightParen)
  return .call t left arguments

/-- And so is what continues it. -/
theorem continuation_run (nested : Nested) (left : Node) (c : Cursor) :
    continuation nested left c =
      match c.current.kind with
      | .symbol .leftParen => callRest nested left c
      | .symbol .leftBracket => indexRest nested left c
      | _ => infixRest nested left c := by
  simp only [continuation, callRest, indexRest, infixRest, current_bind]
  cases hkind : c.current.kind with
  | symbol mark => cases mark <;> rfl
  | _ => rfl

end Parse

end Scriptlet
