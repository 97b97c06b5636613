import Scriptlet.Eval.Evaluate
import Scriptlet.Proofs.Eval.Yield
import Scriptlet.Proofs.Value.Relabel

/-!
Evaluation does not look at tokens. Evaluating a relabelled tree in a machine that was
relabelled too does what evaluating the tree does in the machine, and the result and the
machine that is left are the relabelled ones. Each rule is compared once, given that the nodes
inside it compare.
-/

namespace Scriptlet

namespace Relabelling

variable (r : Relabelling)

def binding (entry : String × Value) : String × Value :=
  (entry.1, r.value entry.2)

def scope (s : Scope) : Scope :=
  ⟨s.bindings.map r.binding, s.outer⟩

def heap (h : Heap) : Heap :=
  ⟨h.scopes.map r.scope⟩

def note : Note → Note
  | .parseError diagnostic => .parseError (r.diagnostic diagnostic)
  | .applying callee arguments => .applying (r.value callee) arguments
  | other => other

/-- The machine with every token changed. -/
def machine (m : Machine) : Machine :=
  { m with heap := r.heap m.heap, notes := m.notes.map r.note }

def breach : Breach → Breach
  | .noRule n => .noRule (r.node n)
  | .noValue n => .noValue (r.node n)

/-- An ended evaluation with its result and its machine changed. -/
def ended {α β : Type} (change : α → β) : Outcome α → Outcome β
  | .done a m => .done (change a) (r.machine m)
  | .broken b m => .broken (r.breach b) (r.machine m)
  | .tooDeep m => .tooDeep (r.machine m)

theorem bindGo_binding (name : String) (v : Value) (bindings : List (String × Value)) :
    Scope.bind.go name (r.value v) (bindings.map r.binding) =
      (Scope.bind.go name v bindings).map r.binding := by
  induction bindings with
  | nil => rfl
  | cons entry bindings ih =>
      simp only [List.map_cons, Scope.bind.go, binding, ih]
      split <;> rfl

/-- Binding a changed value in changed scopes is changing the scopes after the binding. -/
theorem bind_heap (h : Heap) (place : ScopeId) (name : String) (v : Value) :
    (r.heap h).bind place name (r.value v) = r.heap (h.bind place name v) := by
  have hscope (s : Scope) : (r.scope s).bind name (r.value v) = r.scope (s.bind name v) :=
    congrArg (Scope.mk · s.outer) (r.bindGo_binding name v s.bindings)
  unfold Heap.bind heap
  apply congrArg Heap.mk
  apply Array.ext
  · simp
  · intro i _ _
    simp only [Array.getElem_map, Array.getElem_modify, hscope]
    split <;> rfl

/-- The number of a new scope does not depend on what is bound in the others. -/
theorem enclose_heap (h : Heap) (outer : Option ScopeId) :
    (r.heap h).enclose outer = ((h.enclose outer).1, r.heap (h.enclose outer).2) := by
  simp [Heap.enclose, heap, scope]

/-- Which scopes lie around another is not a matter of tokens. -/
theorem chain_heap (h : Heap) (place : ScopeId) : (r.heap h).chain place = h.chain place := by
  have hgo (fuel : Nat) (place : ScopeId) :
      Heap.chain.go (r.heap h) fuel place = Heap.chain.go h fuel place := by
    induction fuel generalizing place with
    | zero => rfl
    | succ fuel ih =>
        simp only [Heap.chain.go, heap, Array.getElem?_map]
        cases h.scopes[place]? with
        | none => rfl
        | some s =>
            simp only [Option.map_some, scope]
            cases s.outer with
            | none => rfl
            | some outer => exact congrArg (place :: ·) (ih outer)
  unfold Heap.chain
  rw [hgo]
  simp [heap]

theorem lookup_binding (bindings : List (String × Value)) (name : String) :
    (bindings.map r.binding).lookup name = (bindings.lookup name).map r.value := by
  induction bindings with
  | nil => rfl
  | cons entry bindings ih =>
      rw [List.map_cons, List.lookup_cons, List.lookup_cons, ih]
      simp only [binding]
      split <;> rfl

/-- A name is found in the same scope, with the changed value. -/
theorem get?_heap (h : Heap) (place : ScopeId) (name : String) :
    (r.heap h).get? place name = (h.get? place name).map r.value := by
  have hown (i : ScopeId) : (r.heap h).own? i name = (h.own? i name).map r.value := by
    simp only [Heap.own?, heap, Array.getElem?_map]
    cases h.scopes[i]? with
    | none => rfl
    | some s => exact r.lookup_binding s.bindings name
  unfold Heap.get?
  rw [chain_heap]
  induction h.chain place with
  | nil => rfl
  | cons i chain ih =>
      rw [List.findSome?_cons, List.findSome?_cons, ih, hown]
      cases h.own? i name <;> rfl

theorem names_heap (h : Heap) (place : ScopeId) : (r.heap h).names place = h.names place := by
  have hbound (i : ScopeId) :
      (((r.heap h).scopes[i]?.map (·.bindings.map Prod.fst)).getD []) =
        ((h.scopes[i]?.map (·.bindings.map Prod.fst)).getD []) := by
    simp only [heap, Array.getElem?_map]
    cases h.scopes[i]? with
    | none => rfl
    | some s =>
        show (s.bindings.map r.binding).map Prod.fst = s.bindings.map Prod.fst
        rw [List.map_map]
        rfl
  simp only [Heap.names, chain_heap, hbound]

end Relabelling

namespace Eval

variable {α β : Type} {r : Relabelling}

/-- The second evaluation does in a relabelled machine what the first does. -/
def Follows (r : Relabelling) (change : α → β) (e : Eval α) (e' : Eval β) : Prop :=
  ∀ m, e' (r.machine m) = r.ended change (e m)

namespace Follows

variable {γ δ : Type} {change : α → β} {change' : γ → δ} {e : Eval α} {e' : Eval β}

theorem pure {a : α} {b : β} (h : change a = b) :
    Follows r change (Pure.pure a) (Pure.pure b) := by
  intro m
  rw [← h]
  rfl

theorem breakOff (breach : Breach) :
    Follows r change (Eval.breakOff breach) (Eval.breakOff (r.breach breach)) :=
  fun _ => rfl

/-- Two evaluations that follow two others follow them one after the other. -/
theorem bind {next : α → Eval γ} {next' : β → Eval δ} (h : Follows r change e e')
    (hnext : ∀ a, Follows r change' (next a) (next' (change a))) :
    Follows r change' (e >>= next) (e' >>= next') := by
  intro m
  show Eval.bind e' next' (r.machine m) = r.ended change' (Eval.bind e next m)
  unfold Eval.bind
  rw [h m]
  cases e m with
  | done a m' => exact hnext a m'
  | broken breach m' => rfl
  | tooDeep m' => rfl

theorem asResult {e e' : Eval Value} (h : Follows r r.value e e') :
    Follows r (Option.map r.value) (some <$> e) (some <$> e') :=
  h.bind fun _ => .pure rfl

end Follows

theorem newArray_follows (elements : List Value) :
    Follows r r.value (newArray elements) (newArray (r.values elements)) :=
  fun _ => rfl

theorem newHash_follows (entries : List (Key × Value)) :
    Follows r r.value (newHash entries) (newHash (r.keyed entries)) :=
  fun _ => rfl

theorem newReturned_follows (v : Value) :
    Follows r r.value (newReturned v) (newReturned (r.value v)) :=
  fun _ => rfl

theorem note_follows (n : Note) : Follows r id (note n) (note (r.note n)) := by
  intro m
  simp [note, Relabelling.machine, Relabelling.ended]

theorem bindName_follows (scope : ScopeId) (name : String) (v : Value) :
    Follows r id (bindName scope name v) (bindName scope name (r.value v)) := by
  intro m
  simp only [bindName, Relabelling.machine, r.bind_heap]
  rfl

theorem newScope_follows (outer : Option ScopeId) :
    Follows r id (newScope outer) (newScope outer) := by
  intro m
  simp only [newScope, Relabelling.machine, r.enclose_heap]
  rfl

/-- A closure of the changed tree is the changed closure. -/
theorem function_follows (scope : ScopeId) (parameters : List Ident) (body : Node) :
    Follows r r.value (Eval.function scope parameters body)
      (Eval.function scope (parameters.map r.ident) (r.node body)) := by
  unfold Eval.function
  rw [r.name_map_ident]
  apply (note_follows (r := r) _).bind
  intro _ m
  rfl

theorem ident_follows (scope : ScopeId) (name : String) :
    Follows r r.value (Eval.ident scope name) (Eval.ident scope name) := by
  have hlookup : Follows r (Option.map r.value) (lookup scope name) (lookup scope name) := by
    intro m
    simp only [lookup, Relabelling.machine, r.get?_heap]
    rfl
  apply hlookup.bind
  intro found
  cases found with
  | some v => exact .pure rfl
  | none =>
      simp only [Option.map_none]
      cases Builtin.ofName? name with
      | some f => exact .pure rfl
      | none => exact .pure rfl

theorem bindAll_follows (scope : ScopeId) (names : List String) (vs : List Value) :
    Follows r id (bindAll scope names vs) (bindAll scope names (r.values vs)) := by
  induction names generalizing vs with
  | nil => exact .pure rfl
  | cons name names ih =>
      cases vs with
      | nil => exact .pure rfl
      | cons v vs => exact (bindName_follows scope name v).bind fun _ => ih vs

end Eval

namespace Builtin

open Eval

variable {r : Relabelling}

theorem printAll_follows (vs : List Value) :
    Follows r r.value (printAll vs) (printAll (r.values vs)) := by
  induction vs with
  | nil => exact .pure rfl
  | cons v vs ih =>
      have hline : Follows r id (printLine v.inspect) (printLine (r.value v).inspect) := by
        rw [r.inspect_value]
        exact fun _ => rfl
      exact hline.bind fun _ => ih

/-- Arguments are taken or refused by type, which stays. -/
theorem arrayArgument_values (f : Builtin) (wanted : Nat) (arguments : List Value) :
    f.arrayArgument wanted (r.values arguments) =
      (f.arrayArgument wanted arguments).map r.values := by
  unfold arrayArgument
  rw [r.values_eq_map, List.length_map]
  split
  · rfl
  · cases arguments with
    | nil => rfl
    | cons first others => cases first <;> rfl

theorem onArray_follows (f : Builtin) (arguments : List Value)
    {body body' : List Value → Eval Value}
    (h : ∀ elements, Follows r r.value (body elements) (body' (r.values elements))) :
    Follows r r.value (f.onArray arguments body) (f.onArray (r.values arguments) body') := by
  unfold onArray
  rw [arrayArgument_values]
  cases f.arrayArgument 1 arguments with
  | ok elements => exact h elements
  | error reason => exact .pure rfl

theorem length_values (arguments : List Value) :
    length (r.values arguments) = r.value (length arguments) := by
  rw [r.value_of_flat (number?_length arguments)]
  rcases arguments with _ | ⟨first, _ | ⟨second, others⟩⟩
  · rfl
  · cases first with
    | array id elements =>
        simp only [Relabelling.values, Relabelling.value, length, r.values_eq_map,
          List.length_map]
    | _ => rfl
  · simp [length, Relabelling.values, r.values_eq_map]

theorem shorter_follows (cut : List Value → List Value)
    (hcut : ∀ vs, cut (r.values vs) = r.values (cut vs)) (elements : List Value) :
    Follows r r.value
      (if elements.isEmpty then Pure.pure .null else newArray (cut elements))
      (if (r.values elements).isEmpty then Pure.pure .null
        else newArray (cut (r.values elements))) := by
  rw [hcut, r.values_eq_map elements, List.isEmpty_map]
  split
  · exact .pure rfl
  · exact newArray_follows _

theorem apply_follows (f : Builtin) (arguments : List Value) :
    Follows r r.value (f.apply arguments) (f.apply (r.values arguments)) := by
  cases f with
  | len => exact .pure (length_values arguments).symm
  | first =>
      apply onArray_follows
      intro elements
      apply Follows.pure
      rw [r.values_eq_map, List.head?_map, r.getD_value]
  | last =>
      apply onArray_follows
      intro elements
      apply Follows.pure
      rw [r.values_eq_map, List.getLast?_map, r.getD_value]
  | rest =>
      apply onArray_follows
      exact shorter_follows List.tail fun vs => by simp [r.values_eq_map]
  | pop =>
      apply onArray_follows
      exact shorter_follows List.dropLast fun vs => by simp [r.values_eq_map]
  | push =>
      simp only [apply]
      rw [arrayArgument_values]
      cases arrayArgument .push 2 arguments with
      | ok elements =>
          have hpushed : r.values elements ++ (r.values arguments).tail =
              r.values (elements ++ arguments.tail) := by
            simp [r.values_eq_map]
          simp only [Except.map, hpushed]
          exact newArray_follows _
      | error reason => exact .pure rfl
  | puts => exact printAll_follows arguments

end Builtin

namespace Eval

variable {r : Relabelling}

section Rules

variable {step step' : Step}
  (hstep : ∀ node, Follows r (Option.map r.value) (step node) (step' (r.node node)))
include hstep

/-- A node without a value breaks the evaluation off in both runs, each naming its own tree. -/
theorem value_follows (node : Node) :
    Follows r r.value (value step node) (value step' (r.node node)) := by
  apply (hstep node).bind
  intro found
  cases found with
  | some v => exact .pure rfl
  | none => exact .breakOff (.noValue node)

/-- Errors stay errors, so both runs go on or neither does. -/
theorem withValue_follows (node : Node) {next next' : Value → Eval (Option Value)}
    (hnext : ∀ v, Follows r (Option.map r.value) (next v) (next' (r.value v))) :
    Follows r (Option.map r.value) (withValue step node next)
      (withValue step' (r.node node) next') := by
  apply (value_follows hstep node).bind
  intro v
  rw [r.isError_value]
  split
  · exact .pure rfl
  · exact hnext v

/-- The same statement ends both runs. -/
theorem statements_follows (nodes : List Node) (result : Option Value) :
    Follows r (Option.map r.value) (statements step nodes result)
      (statements step' (r.nodes nodes) (result.map r.value)) := by
  induction nodes generalizing result with
  | nil => exact .pure rfl
  | cons node nodes ih =>
      apply (hstep node).bind
      intro found
      cases found with
      | none => exact ih none
      | some v =>
          simp only [Option.map_some, r.isExit_value]
          split
          · exact .pure rfl
          · exact ih (some v)

theorem branch_follows (block : Node) :
    Follows r (Option.map r.value) (branch step block) (branch step' (r.node block)) := by
  unfold branch
  rw [r.statements_node, ← r.nodes_eq_map]
  apply (statements_follows hstep block.statements none).bind
  intro result
  apply Follows.pure
  rw [r.getD_value]
  rfl

theorem values_follows (nodes : List Node) (found : List Value) :
    Follows r (Except.map r.values) (values step nodes found)
      (values step' (r.nodes nodes) (r.values found)) := by
  induction nodes generalizing found with
  | nil =>
      apply Follows.pure
      simp [Except.map, r.values_eq_map]
  | cons node nodes ih =>
      apply (value_follows hstep node).bind
      intro v
      have hrest := ih (v :: found)
      cases v with
      | error reason => exact .pure rfl
      | _ => exact hrest

/-- Keys stay, so the pairs are entered in the same places. -/
theorem pairs_follows (nodes : List (Node × Node)) (found : List (Key × Value)) :
    Follows r (Except.map r.keyed) (pairs step nodes found)
      (pairs step' (r.pairs nodes) (r.keyed found)) := by
  induction nodes generalizing found with
  | nil => exact .pure rfl
  | cons pair nodes ih =>
      obtain ⟨keyNode, valueNode⟩ := pair
      apply (value_follows hstep keyNode).bind
      intro key
      cases key with
      | error reason => exact .pure rfl
      | integer _ | boolean _ | text _ =>
          apply (value_follows hstep valueNode).bind
          intro v
          have hrest (k : Key) := ih (insertPair found k v)
          simp only [← r.insertPair_keyed] at hrest
          cases v with
          | error reason => exact .pure rfl
          | _ => exact hrest _
      | _ => exact .pure rfl

end Rules

/-- A call binds the same names to changed values and evaluates the changed body. -/
theorem apply_follows {stepIn stepIn' : ScopeId → Step}
    (hstep : ∀ scope node,
      Follows r (Option.map r.value) (stepIn scope node) (stepIn' scope (r.node node)))
    (callee : Value) (arguments : List Value) :
    Follows r r.value (apply stepIn callee arguments)
      (apply stepIn' (r.value callee) (r.values arguments)) := by
  cases callee with
  | function id parameters body captured =>
      simp only [Relabelling.value, apply]
      rw [r.statements_node, ← r.nodes_eq_map, r.values_eq_map, List.length_map,
        ← r.values_eq_map]
      split
      · exact .pure rfl
      · apply (note_follows (.applying (.function id parameters body captured) _)).bind
        intro _
        apply (newScope_follows (some captured)).bind
        intro scope
        apply (bindAll_follows scope parameters arguments).bind
        intro _
        apply (statements_follows (hstep scope) body.statements none).bind
        intro result
        apply Follows.pure
        rw [r.getD_value, r.unwrap_value]
  | builtin f => exact f.apply_follows arguments
  | _ => exact .pure rfl

end Eval

open Eval

/-- Evaluation of a relabelled tree follows that of the tree, however deep. -/
theorem evaluate_follows (r : Relabelling) (levels : Nat) (scope : ScopeId) (node : Node) :
    Follows r (Option.map r.value) (evaluate levels scope node)
      (evaluate levels scope (r.node node)) := by
  induction levels generalizing scope node with
  | zero => exact fun _ => rfl
  | succ levels ih =>
      have hstep := ih scope
      cases node with
      | bare t => exact .breakOff (.noRule (.bare t))
      | program nodes =>
          apply (statements_follows hstep nodes none).bind
          intro result
          apply Follows.pure
          cases result with
          | none => rfl
          | some v => exact congrArg some (r.unwrap_value v).symm
      | block t nodes => exact statements_follows hstep nodes none
      | binding t name valueNode =>
          apply withValue_follows hstep
          intro v
          apply (bindName_follows scope name.name v).bind
          intro _
          exact .pure rfl
      | ret t found =>
          cases found with
          | none => exact (newReturned_follows .null).asResult
          | some valueNode =>
              apply withValue_follows hstep
              intro v
              exact (newReturned_follows v).asResult
      | expression t valueNode => exact (value_follows hstep valueNode).asResult
      | ident id => exact (ident_follows scope id.name).asResult
      | integer t n => exact .pure rfl
      | boolean t b => exact .pure rfl
      | text t s => exact .pure rfl
      | array t nodes =>
          apply (values_follows hstep nodes []).bind
          intro found
          cases found with
          | ok elements => exact (newArray_follows elements).asResult
          | error reason => exact .pure rfl
      | hash t nodes =>
          apply (pairs_follows hstep nodes []).bind
          intro found
          cases found with
          | ok entries => exact (newHash_follows entries).asResult
          | error reason => exact .pure rfl
      | unary t operator operand =>
          apply withValue_follows hstep
          intro v
          exact .pure (congrArg some (r.unary_value operator v).symm)
      | binary t left operator right =>
          apply withValue_follows hstep
          intro v
          apply withValue_follows hstep
          intro w
          exact .pure (congrArg some (r.binary_value operator v w).symm)
      | conditional t condition consequence alternative =>
          cases alternative with
          | none =>
              apply withValue_follows hstep
              intro v
              rw [r.isTruthy_value]
              split
              · exact branch_follows hstep consequence
              · exact .pure rfl
          | some block =>
              apply withValue_follows hstep
              intro v
              rw [r.isTruthy_value]
              split
              · exact branch_follows hstep consequence
              · exact branch_follows hstep block
      | function t parameters body =>
          exact (function_follows scope parameters body).asResult
      | call t callee nodes =>
          apply withValue_follows hstep
          intro f
          apply (values_follows hstep nodes []).bind
          intro found
          cases found with
          | ok arguments => exact (apply_follows ih f arguments).asResult
          | error reason => exact .pure rfl
      | index t collection place =>
          apply withValue_follows hstep
          intro c
          apply withValue_follows hstep
          intro i
          exact .pure (congrArg some (r.index_value c i).symm)

/-- How an evaluation has ended: with the type and the text of a result, if there is one, or
at a node of some rule that has none itself or no value, or too deep. -/
inductive Upshot where
  | done (result : Option (TypeTag × String))
  | noRule (kind : String)
  | noValue (kind : String)
  | tooDeep
  deriving DecidableEq

/-- What can be seen of an ended evaluation. -/
structure View where
  upshot : Upshot
  printed : Array String
  names : List String
  deriving DecidableEq

namespace Outcome

def upshot : Outcome (Option Value) → Upshot
  | .done found _ => .done (found.map fun v => (v.tag, v.inspect))
  | .broken (.noRule node) _ => .noRule node.kind
  | .broken (.noValue node) _ => .noValue node.kind
  | .tooDeep _ => .tooDeep

/-- What can be seen from a scope: how it has ended, what was printed, and which names stand
for something. -/
def view (scope : ScopeId) (outcome : Outcome (Option Value)) : View :=
  ⟨outcome.upshot, outcome.machine.printed, outcome.machine.heap.names scope⟩

end Outcome

namespace Relabelling

variable (r : Relabelling)

theorem machine_ended {α β : Type} (change : α → β) (outcome : Outcome α) :
    (r.ended change outcome).machine = r.machine outcome.machine := by
  cases outcome <;> rfl

/-- What shows of an end is type, text and kind, where tokens do not come in. -/
theorem upshot_ended (outcome : Outcome (Option Value)) :
    (r.ended (Option.map r.value) outcome).upshot = outcome.upshot := by
  cases outcome with
  | done found m =>
      cases found with
      | none => rfl
      | some v =>
          show Upshot.done (some ((r.value v).tag, (r.value v).inspect)) = _
          rw [r.tag_value, r.inspect_value]
          rfl
  | broken breach m =>
      cases breach with
      | noRule node => exact congrArg Upshot.noRule (r.kind_node node)
      | noValue node => exact congrArg Upshot.noValue (r.kind_node node)
  | tooDeep m => rfl

/-- Nor do they in what is printed or in the names that are bound. -/
theorem view_ended (scope : ScopeId) (outcome : Outcome (Option Value)) :
    (r.ended (Option.map r.value) outcome).view scope = outcome.view scope := by
  unfold Outcome.view
  rw [r.upshot_ended, r.machine_ended]
  exact congrArg (View.mk _ _) (r.names_heap _ scope)

end Relabelling

/-- Trees that differ in tokens only, evaluated in machines that differ in tokens only, cannot
be told apart. -/
theorem view_evaluate_eq {r : Relabelling} {n n' : Node} {m m' : Machine}
    (hnode : r.node n = r.node n') (hmachine : r.machine m = r.machine m') (levels : Nat)
    (scope : ScopeId) :
    (evaluate levels scope n m).view scope = (evaluate levels scope n' m').view scope := by
  calc (evaluate levels scope n m).view scope
      = (evaluate levels scope (r.node n) (r.machine m)).view scope := by
        rw [evaluate_follows r levels scope n m, r.view_ended]
    _ = (evaluate levels scope (r.node n') (r.machine m')).view scope := by
        rw [hnode, hmachine]
    _ = (evaluate levels scope n' m').view scope := by
        rw [evaluate_follows r levels scope n' m', r.view_ended]

end Scriptlet
