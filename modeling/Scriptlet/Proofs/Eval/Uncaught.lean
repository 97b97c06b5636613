import Scriptlet.Proofs.Eval.Raising

/-!
Errors as values behave like exceptions that nothing catches. Evaluation hands
errors on as values; with no error stored in the scopes to begin with, it does step
for step what raising evaluation does, and where the latter has raised an error, the
former gives that error as its result. Each rule is compared once, given that the
nodes inside it compare.
-/

namespace Scriptlet

variable {α β γ δ : Type}

/-- What an attempt looks like from outside, once an error has been caught. -/
def Attempt.encode (code : Except RuntimeError α → β) : Attempt α → Outcome β
  | .done a m => .done (code (.ok a)) m.machine
  | .raised reason m => .done (code (.error reason)) m.machine
  | .broken breach m => .broken breach m.machine
  | .tooDeep m => .tooDeep m.machine

/-- The evaluation hands on as a coded value what the other one gives or raises. -/
def Mirrors (code : Except RuntimeError α → β) (e : Eval β) (r : Raising α) : Prop :=
  ∀ m : SoundMachine, e m.machine = (r m).encode code

/-- An error as a value. -/
def codeValue : Except RuntimeError Datum → Value
  | .ok d => d.value
  | .error reason => .error reason

/-- An error as the value that a node has. -/
def codeOption : Except RuntimeError (Option Datum) → Option Value
  | .ok found => found.map Datum.value
  | .error reason => some (.error reason)

/-- Values behind those found before, the last of which comes first. -/
def codeList (found : List Datum) :
    Except RuntimeError (List Datum) → Except RuntimeError (List Value)
  | .ok ds => .ok ((found.reverse ++ ds).map Datum.value)
  | .error reason => .error reason

def codeEntries : Except RuntimeError Entries → Except RuntimeError (List (Key × Value))
  | .ok entries => .ok entries.pairs
  | .error reason => .error reason

namespace Mirrors

variable {code : Except RuntimeError α → β} {code' : Except RuntimeError γ → δ}

theorem pure {b : β} {a : α} (h : code (.ok a) = b) :
    Mirrors code (Pure.pure b) (Pure.pure a) := by
  intro m
  rw [← h]
  rfl

theorem raise {b : β} {reason : RuntimeError} (h : code (.error reason) = b) :
    Mirrors code (Pure.pure b) (Raising.raise reason) := by
  intro m
  rw [← h]
  rfl

theorem breakOff (breach : Breach) :
    Mirrors code (Eval.breakOff breach) (Raising.breakOff breach) := by
  intro m
  rfl

theorem tooDeep : Mirrors code Eval.tooDeep Raising.tooDeep := by
  intro m
  rfl

/-- One evaluation behind another mirrors, provided that it hands an error of the
first on as it is. -/
theorem bind {e : Eval β} {r : Raising α} {next : β → Eval δ} {next' : α → Raising γ}
    (h : Mirrors code e r)
    (herror : ∀ reason, next (code (.error reason)) = Pure.pure (code' (.error reason)))
    (hnext : ∀ a, Mirrors code' (next (code (.ok a))) (next' a)) :
    Mirrors code' (e >>= next) (r >>= next') := by
  intro m
  show Eval.bind e next m.machine = (Raising.bind r next' m).encode code'
  unfold Eval.bind Raising.bind
  rw [h m]
  cases r m with
  | done a m' => exact hnext a m'
  | raised reason m' =>
      show next (code (.error reason)) m'.machine = _
      rw [herror]
      rfl
  | broken breach m' => rfl
  | tooDeep m' => rfl

/-- A step of both that nothing can go wrong in. -/
theorem step {e : Eval β} {r : Raising α} {next : β → Eval δ} {next' : α → Raising γ}
    (f : α → β) (h : ∀ m : SoundMachine, ∃ a m', r m = .done a m' ∧
      e m.machine = .done (f a) m'.machine)
    (hnext : ∀ a, Mirrors code' (next (f a)) (next' a)) :
    Mirrors code' (e >>= next) (r >>= next') := by
  intro m
  obtain ⟨a, m', hr, he⟩ := h m
  show Eval.bind e next m.machine = (Raising.bind r next' m).encode code'
  unfold Eval.bind Raising.bind
  rw [hr, he]
  exact hnext a m'

/-- Reshaping what the raising evaluation gives. -/
theorem recode {e : Eval β} {r : Raising α} {code' : Except RuntimeError γ → β} {f : α → γ}
    (h : Mirrors code e r) (hok : ∀ a, code' (.ok (f a)) = code (.ok a))
    (herror : ∀ reason, code' (.error reason) = code (.error reason)) :
    Mirrors code' e (do return f (← r)) := by
  intro m
  rw [h m]
  show _ = (Raising.bind r (fun a => Raising.pure (f a)) m).encode code'
  unfold Raising.bind
  cases r m with
  | done a m' => exact congrArg (Outcome.done · m'.machine) (hok a).symm
  | raised reason m' => exact congrArg (Outcome.done · m'.machine) (herror reason).symm
  | broken breach m' => rfl
  | tooDeep m' => rfl

/-- The value of a node, as the result of evaluating it. -/
theorem asResult {e : Eval Value} {r : Raising Datum} (h : Mirrors codeValue e r) :
    Mirrors codeOption (some <$> e) (some <$> r) := by
  apply h.bind
  · intro reason
    rfl
  · intro d
    exact .pure rfl

end Mirrors

open Eval

/-- What an operator gives is the value itself, or the error as a value. -/
theorem settle_mirrors (v : Value) (h : v.Settled) :
    Mirrors codeValue (Pure.pure v) (Raising.settle v h) := by
  intro m
  unfold Raising.settle
  split
  next reason hreason =>
    rw [Value.eq_error_of_reason? hreason]
    rfl
  next => rfl

theorem newArray_mirrors (elements : List Datum) :
    Mirrors codeValue (newArray (elements.map Datum.value)) (Raising.newArray elements) := by
  intro m
  rfl

theorem newHash_mirrors (entries : Entries) :
    Mirrors codeValue (newHash entries.pairs) (Raising.newHash entries) := by
  intro m
  rfl

theorem newReturned_mirrors (d : Datum) :
    Mirrors codeValue (newReturned d.value) (Raising.newReturned d) := by
  intro m
  rfl

theorem function_mirrors (scope : ScopeId) (parameters : List Ident) (body : Node) :
    Mirrors codeValue (Eval.function scope parameters body)
      (Raising.function scope parameters body) := by
  intro m
  rfl

theorem ident_mirrors (scope : ScopeId) (name : String) :
    Mirrors codeValue (Eval.ident scope name) (Raising.ident scope name) := by
  apply Mirrors.step (fun found : Option Datum => found.map Datum.value)
  · intro m
    unfold Raising.lookup Eval.lookup
    split
    next v hv => exact ⟨_, _, rfl, congrArg (Outcome.done · m.machine) hv⟩
    next hv => exact ⟨_, _, rfl, congrArg (Outcome.done · m.machine) hv⟩
  · intro found
    cases found with
    | some d => exact .pure rfl
    | none =>
        simp only [Option.map_none]
        cases Builtin.ofName? name with
        | some f => exact .pure rfl
        | none => exact .raise rfl

/-- The error that a function gives is raised, and what else it gives is handed on. -/
theorem callBuiltin_mirrors (f : Builtin) (arguments : List Datum) :
    Mirrors codeValue (f.apply (arguments.map Datum.value))
      (Raising.callBuiltin f arguments) := by
  intro m
  unfold Raising.callBuiltin
  split
  next v after hrun => exact hrun.trans (settle_mirrors v _ ⟨after, _⟩)
  next hrun => exact ((Raising.ends_apply f arguments).not_broken hrun).elim
  next hrun => exact ((Raising.ends_apply f arguments).not_tooDeep hrun).elim

/-- Only a return ends statements before an error does. -/
theorem Datum.isExit_eq (d : Datum) : d.value.isExit = d.isReturned := by
  obtain ⟨v, hfree⟩ := d
  cases v with
  | error reason => cases hfree
  | _ => rfl

theorem bindAll_mirrors (scope : ScopeId) (names : List String) (ds : List Datum)
    (m : SoundMachine) : ∃ a m', Raising.bindAll scope names ds m = .done a m' ∧
      Eval.bindAll scope names (ds.map Datum.value) m.machine = .done () m'.machine := by
  induction names generalizing ds m with
  | nil => exact ⟨_, _, rfl, rfl⟩
  | cons name names ih =>
      cases ds with
      | nil => exact ⟨_, _, rfl, rfl⟩
      | cons d ds => exact ih ds _

section Rules

variable {step : Eval.Step} {step' : Raising.Step}
  (hstep : ∀ node, Mirrors codeOption (step node) (step' node))
include hstep

theorem value_mirrors (node : Node) :
    Mirrors codeValue (value step node) (Raising.value step' node) := by
  apply (hstep node).bind
  · intro reason
    rfl
  · intro found
    cases found with
    | some d => exact .pure rfl
    | none => exact .breakOff _

/-- Going on with the value of a node: an error is handed on, and any other value
holds none. -/
theorem withValue_mirrors (node : Node) {next : Value → Eval (Option Value)}
    {next' : Datum → Raising (Option Datum)}
    (hnext : ∀ d : Datum, Mirrors codeOption (next d.value) (next' d)) :
    Mirrors codeOption (withValue step node next) (Raising.value step' node >>= next') := by
  apply (value_mirrors hstep node).bind
  · intro reason
    rfl
  · intro d
    have hno : d.value.isError = false := Value.isError_of_errorFree d.errorFree
    simp only [codeValue, hno, Bool.false_eq_true, if_false]
    exact hnext d

/-- A raised error ends all statements around it, as an error that is handed on does one by one. -/
theorem statements_mirrors (nodes : List Node) (result : Option Datum) :
    Mirrors codeOption (statements step nodes (result.map Datum.value))
      (Raising.statements step' nodes result) := by
  induction nodes generalizing result with
  | nil => exact .pure rfl
  | cons node nodes ih =>
      apply (hstep node).bind
      · intro reason
        rfl
      · intro found
        cases found with
        | none => exact ih none
        | some d =>
            simp only [codeOption, Option.map_some, Option.any_some, d.isExit_eq]
            split
            · exact .pure rfl
            · exact ih (some d)

/-- An error in a list ends the list, and with it the rule that the list belongs to. -/
theorem values_mirrors (nodes : List Node) (found : List Datum) :
    Mirrors (codeList found) (values step nodes (found.map Datum.value))
      (Raising.values step' nodes) := by
  induction nodes generalizing found with
  | nil => exact .pure (by simp [codeList])
  | cons node nodes ih =>
      apply (value_mirrors hstep node).bind
      · intro reason
        rfl
      · intro first
        have hrest : Mirrors (codeList found)
            (values step nodes (first.value :: found.map Datum.value))
            (do return first :: (← Raising.values step' nodes)) := by
          apply (ih (first :: found)).recode
          · intro others
            simp [codeList]
          · intro reason
            rfl
        obtain ⟨v, hfree⟩ := first
        cases v with
        | error reason => cases hfree
        | _ => exact hrest

theorem pairs_mirrors (nodes : List (Node × Node)) (found : Entries) :
    Mirrors codeEntries (pairs step nodes found.pairs) (Raising.pairs step' nodes found) := by
  induction nodes generalizing found with
  | nil => exact .pure rfl
  | cons nodes rest ih =>
      obtain ⟨keyNode, valueNode⟩ := nodes
      apply (value_mirrors hstep keyNode).bind
      · intro reason
        rfl
      · intro key
        obtain ⟨v, hfree⟩ := key
        cases v with
        | error reason => cases hfree
        | integer _ | boolean _ | text _ =>
            apply (value_mirrors hstep valueNode).bind
            · intro reason
              rfl
            · intro d
              have hrest (k : Key) := ih (found.insert k d)
              obtain ⟨v, hfree⟩ := d
              cases v with
              | error reason => cases hfree
              | _ => exact hrest _
        | _ => exact .raise rfl

theorem branch_mirrors (block : Node) :
    Mirrors codeOption (branch step block) (Raising.branch step' block) := by
  apply (statements_mirrors hstep block.statements none).bind
  · intro reason
    rfl
  · intro found
    apply Mirrors.pure
    cases found <;> rfl

end Rules

/-- An error that ends the body of a function is the value of the call, and is handed on
from there. -/
theorem apply_mirrors {stepIn : ScopeId → Eval.Step} {stepIn' : ScopeId → Raising.Step}
    (hstep : ∀ scope node, Mirrors codeOption (stepIn scope node) (stepIn' scope node))
    (callee : Datum) (arguments : List Datum) :
    Mirrors codeValue (Eval.apply stepIn callee.value (arguments.map Datum.value))
      (Raising.apply stepIn' callee arguments) := by
  obtain ⟨v, hfree⟩ := callee
  cases v with
  | function id parameters body captured =>
      simp only [Eval.apply, Raising.apply, List.length_map]
      split
      · exact .raise rfl
      · apply Mirrors.step (fun u : Unit => u)
        · intro m
          exact ⟨_, _, rfl, rfl⟩
        intro _
        apply Mirrors.step (fun scope : ScopeId => scope)
        · intro m
          exact ⟨_, _, rfl, rfl⟩
        intro scope
        apply Mirrors.step (fun u : Unit => u)
        · intro m
          exact bindAll_mirrors scope parameters arguments m
        intro _
        apply (statements_mirrors (hstep scope) body.statements none).bind
        · intro reason
          rfl
        · intro found
          apply Mirrors.pure
          cases found <;> rfl
  | builtin f => exact callBuiltin_mirrors f arguments
  | _ => exact .raise rfl

/-- Evaluation mirrors raising evaluation at every node, however deep. -/
theorem evaluate_mirrors (levels : Nat) (scope : ScopeId) (node : Node) :
    Mirrors codeOption (evaluate levels scope node) (Raising.evaluate levels scope node) := by
  induction levels generalizing scope node with
  | zero => exact .tooDeep
  | succ levels ih =>
      have hstep := ih scope
      cases node with
      | bare t => exact .breakOff _
      | program nodes =>
          apply (statements_mirrors hstep nodes none).bind
          · intro reason
            rfl
          · intro found
            apply Mirrors.pure
            cases found <;> rfl
      | block t nodes => exact statements_mirrors hstep nodes none
      | binding t name valueNode =>
          apply withValue_mirrors hstep
          intro d
          apply Mirrors.step (fun u : Unit => u)
          · intro m
            exact ⟨_, _, rfl, rfl⟩
          intro _
          exact .pure rfl
      | ret t found =>
          cases found with
          | none => exact (newReturned_mirrors .null).asResult
          | some valueNode =>
              apply withValue_mirrors hstep
              intro d
              exact (newReturned_mirrors d).asResult
      | expression t valueNode => exact (value_mirrors hstep valueNode).asResult
      | ident id => exact (ident_mirrors scope id.name).asResult
      | integer t n => exact .pure rfl
      | boolean t b => exact .pure rfl
      | text t s => exact .pure rfl
      | array t nodes =>
          apply (values_mirrors hstep nodes []).bind
          · intro reason
            rfl
          · intro elements
            exact (newArray_mirrors elements).asResult
      | hash t nodes =>
          apply (pairs_mirrors hstep nodes .empty).bind
          · intro reason
            rfl
          · intro entries
            exact (newHash_mirrors entries).asResult
      | unary t operator operand =>
          apply withValue_mirrors hstep
          intro d
          exact (settle_mirrors _ (Value.settled_unary operator d.value)).asResult
      | binary t left operator right =>
          apply withValue_mirrors hstep
          intro l
          apply withValue_mirrors hstep
          intro r
          exact (settle_mirrors _ (Value.settled_binary operator l.value r.value)).asResult
      | conditional t condition consequence alternative =>
          apply withValue_mirrors hstep
          intro d
          split
          · exact branch_mirrors hstep consequence
          · cases alternative with
            | some block => exact branch_mirrors hstep block
            | none => exact .pure rfl
      | function t parameters body =>
          exact (function_mirrors scope parameters body).asResult
      | call t callee nodes =>
          apply withValue_mirrors hstep
          intro f
          apply (values_mirrors hstep nodes []).bind
          · intro reason
            rfl
          · intro arguments
            exact (apply_mirrors ih f arguments).asResult
      | index t collection place =>
          apply withValue_mirrors hstep
          intro c
          apply withValue_mirrors hstep
          intro i
          exact (settle_mirrors _ (Value.settled_index c.errorFree i.value)).asResult

/-- Catches the error that an attempt has raised, and makes it the result. -/
def Attempt.caught (attempt : Attempt (Option Datum)) : Outcome (Option Value) :=
  attempt.encode codeOption

/-- Errors as values behave like exceptions that only the top catches. From scopes in
which no error is stored, evaluation has the result, the printed lines and the final
scopes of the evaluation that an error ends at once; whatever it comes to, no error
is stored in the scopes, and its result is an error or holds none. -/
theorem evaluate_eq_caught (levels : Nat) (scope : ScopeId) (node : Node) (m : Machine)
    (h : m.heap.ErrorFree) :
    evaluate levels scope node m = (Raising.evaluate levels scope node ⟨m, h⟩).caught ∧
      (evaluate levels scope node m).machine.heap.ErrorFree ∧
      ∀ v after, evaluate levels scope node m = .done (some v) after →
        v.isError = true ∨ v.errorFree = true := by
  have hmirrors : evaluate levels scope node m =
      (Raising.evaluate levels scope node ⟨m, h⟩).caught :=
    evaluate_mirrors levels scope node ⟨m, h⟩
  constructor
  · exact hmirrors
  rw [hmirrors]
  cases Raising.evaluate levels scope node ⟨m, h⟩ with
  | done found after =>
      constructor
      · exact after.errorFree
      · intro v _ hdone
        right
        obtain ⟨hfound, _⟩ := Outcome.done.inj hdone
        obtain ⟨d, _, rfl⟩ := Option.map_eq_some_iff.mp hfound
        exact d.errorFree
  | raised reason after =>
      constructor
      · exact after.errorFree
      · intro v _ hdone
        left
        obtain ⟨hfound, _⟩ := Outcome.done.inj hdone
        obtain rfl := Option.some.inj hfound
        rfl
  | broken breach after =>
      constructor
      · exact after.errorFree
      · intro v _ hdone
        cases hdone
  | tooDeep after =>
      constructor
      · exact after.errorFree
      · intro v _ hdone
        cases hdone

theorem errorFree_withScope : Machine.withScope.2.heap.ErrorFree := by
  have hempty : Heap.empty.ErrorFree := by simp [Heap.ErrorFree, Heap.empty]
  exact hempty.enclose none

/-- A line is printed, then a number is added to a truth value, and another line
would be printed. -/
def printingAroundMismatch : Node :=
  let puts (s : String) : Node := .call ⟨.symbol .leftParen, "(", 1, 1⟩
    (.ident ⟨⟨.ident, "puts", 1, 1⟩, "puts"⟩) [.text ⟨.text, s, 1, 1⟩ s]
  .program [puts "before", .binary ⟨.symbol .plus, "+", 1, 1⟩ (.integer ⟨.number, "1", 1, 1⟩ 1)
    "+" (.boolean ⟨.keyword .trueWord, "true", 1, 1⟩ true), puts "after"]

theorem printingAroundMismatch_caught :
    ∃ after, Raising.evaluate 9 0 printingAroundMismatch ⟨_, errorFree_withScope⟩ =
        .raised (.mismatch .integer "+" .boolean) after ∧
      after.machine.printed = #["before"] ∧
      evaluate 9 0 printingAroundMismatch Machine.withScope.2 =
        .done (some (.error (.mismatch .integer "+" .boolean))) after.machine := by
  refine ⟨_, rfl, rfl, ?_⟩
  exact (evaluate_eq_caught 9 0 printingAroundMismatch _ errorFree_withScope).1

end Scriptlet
