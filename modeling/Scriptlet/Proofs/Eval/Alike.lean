import Scriptlet.Eval.Evaluate
import Scriptlet.Proofs.Scope.Chain
import Scriptlet.Proofs.Value.Alike

/-!
Two runs of one tree. Two machines are alike if scopes that stand for each other hold
values alike, if the numbers and scopes they will make next stand for each other, and if
they have printed the same since they began. Every rule takes machines alike to machines
alike and ends in the same way with values alike. So a run can see nothing of a machine
but the scopes it gets at, and nothing of numbers but which of them are equal.
-/

namespace Scriptlet

section Options

variable {α β : Type} {r : α → α → Prop} {s : β → β → Prop}

/-- Optional values that are related stay so if what follows relates them. -/
theorem rel_bind {a b : Option α} {f g : α → Option β} (h : Option.Rel r a b)
    (hnext : ∀ {x y}, r x y → Option.Rel s (f x) (g y)) :
    Option.Rel s (a.bind f) (b.bind g) := by
  cases h with
  | some hvalue => exact hnext hvalue
  | none => exact .none

theorem rel_or {a b a' b' : Option α} (h : Option.Rel r a b) (h' : Option.Rel r a' b') :
    Option.Rel r (a.or a') (b.or b') := by
  cases h with
  | some hvalue => exact .some hvalue
  | none => exact h'

theorem rel_map {a b : Option α} {f g : α → β} (h : Option.Rel r a b)
    (hnext : ∀ {x y}, r x y → s (f x) (g y)) : Option.Rel s (a.map f) (b.map g) := by
  cases h with
  | some hvalue => exact .some (hnext hvalue)
  | none => exact .none

end Options

variable {π : Pairing}

namespace Scope

/-- The same names in the same order, with values alike, inside scopes that stand for
each other. -/
structure Alike (π : Pairing) (s t : Scope) : Prop where
  outer : Option.Rel π.scope s.outer t.outer
  bindings : List.Forall₂ (Value.Keyed (Value.Alike π)) s.bindings t.bindings

variable {s t : Scope}

/-- A name is bound in the same place in both lists, as the names are the same in the same order. -/
theorem bindGo_keyed {r : Value → Value → Prop} {bs bs' : List (String × Value)}
    (h : List.Forall₂ (Value.Keyed r) bs bs') (name : String) {v w : Value}
    (hvalue : r v w) :
    List.Forall₂ (Value.Keyed r) (bind.go name v bs) (bind.go name w bs') := by
  induction h with
  | nil => exact .cons (.mk name hvalue) .nil
  | cons hentry hrest ih =>
      cases hentry with
      | mk first hfound =>
          unfold bind.go
          split
          · exact .cons (.mk name hvalue) hrest
          · exact .cons (.mk first hfound) ih

theorem Alike.bind (h : Alike π s t) (name : String) {v w : Value}
    (hvalue : Value.Alike π v w) : Alike π (s.bind name v) (t.bind name w) :=
  ⟨h.outer, bindGo_keyed h.bindings name hvalue⟩

end Scope

namespace Machine

structure Alike (π : Pairing) (m n : Machine) : Prop where
  numbers : ∀ k, π.number (m.nextId + k) (n.nextId + k)
  fresh : ∀ k, π.scope (m.heap.scopes.size + k) (n.heap.scopes.size + k)
  scopes : ∀ {c d}, π.scope c d →
    Option.Rel (Scope.Alike π) m.heap.scopes[c]? n.heap.scopes[d]?
  printed : ∃ lines, m.printed = π.printed ++ lines ∧ n.printed = π.printed' ++ lines

variable {m n : Machine} {c d : ScopeId}

/-- By induction on how many scopes are looked through: from scopes that stand for each other one
comes to scopes that do. -/
theorem Alike.within (h : Alike π m n) (hscope : π.scope c d) (name : String) (k : Nat) :
    Option.Rel (Value.Alike π) (m.heap.within name k c) (n.heap.within name k d) := by
  induction k generalizing c d with
  | zero => exact .none
  | succ k ih =>
      unfold Heap.within
      apply rel_bind (h.scopes hscope)
      intro s t hst
      exact rel_or (Value.lookup_keyed hst.bindings name) (rel_bind hst.outer ih)

/-- The two heaps may be of different sizes, so both look-ups are first carried on for
as many scopes as there are in the two together. -/
theorem Alike.get? (h : Alike π m n) (hscope : π.scope c d) (name : String) :
    Option.Rel (Value.Alike π) (m.heap.get? c name) (n.heap.get? d name) := by
  have hboth := h.within hscope name (m.heap.scopes.size + n.heap.scopes.size)
  rw [Heap.within_size_add, Nat.add_comm, Heap.within_size_add] at hboth
  rw [Heap.get?_eq_within, Heap.get?_eq_within]
  exact hboth

theorem Alike.bind (h : Alike π m n) (hscope : π.scope c d) (name : String) {v w : Value}
    (hvalue : Value.Alike π v w) :
    Alike π { m with heap := m.heap.bind c name v } { n with heap := n.heap.bind d name w } where
  numbers := h.numbers
  fresh k := by
    simp only [Heap.bind, Array.size_modify]
    exact h.fresh k
  scopes {c' d'} hscope' := by
    simp only [Heap.bind, Array.getElem?_modify, π.scope_iff hscope hscope']
    split
    · exact rel_map (h.scopes hscope') fun hst => hst.bind name hvalue
    · exact h.scopes hscope'
  printed := h.printed

/-- The scopes made next stand for each other, and so machines stay alike. -/
theorem Alike.enclose (h : Alike π m n) (hscope : π.scope c d) :
    Alike π { m with heap := (m.heap.enclose (some c)).2 }
      { n with heap := (n.heap.enclose (some d)).2 } where
  numbers := h.numbers
  fresh k := by
    have hnext := h.fresh (1 + k)
    simp only [Heap.enclose, Array.size_push, Nat.add_assoc]
    exact hnext
  scopes {c' d'} hscope' := by
    -- The two new scopes stand for each other and for no other scope.
    have hnew : c' = m.heap.scopes.size ↔ d' = n.heap.scopes.size :=
      π.scope_iff hscope' (h.fresh 0)
    simp only [Heap.enclose, Array.getElem?_push, hnew]
    split
    · exact .some ⟨.some hscope, .nil⟩
    · exact h.scopes hscope'
  printed := h.printed

end Machine

/-- Outcomes of one kind, with results related and machines alike. -/
inductive Outcome.Alike {α : Type} (π : Pairing) (r : α → α → Prop) :
    Outcome α → Outcome α → Prop where
  | done {a b : α} {m n : Machine} (hvalue : r a b) (h : Machine.Alike π m n) :
      Alike π r (.done a m) (.done b n)
  | broken (breach : Breach) {m n : Machine} (h : Machine.Alike π m n) :
      Alike π r (.broken breach m) (.broken breach n)
  | tooDeep {m n : Machine} (h : Machine.Alike π m n) :
      Alike π r (.tooDeep m) (.tooDeep n)

/-- Both an error of one reason, or both results, which are related. -/
inductive SameResult {α : Type} (r : α → α → Prop) :
    Except RuntimeError α → Except RuntimeError α → Prop where
  | ok {a b : α} (h : r a b) : SameResult r (.ok a) (.ok b)
  | error (reason : RuntimeError) : SameResult r (.error reason) (.error reason)

namespace Eval

variable {α β : Type}

/-- From machines alike, both evaluations end alike. -/
def Alike (π : Pairing) (r : α → α → Prop) (e f : Eval α) : Prop :=
  ∀ m n, Machine.Alike π m n → Outcome.Alike π r (e m) (f n)

variable {r : α → α → Prop} {s : β → β → Prop}

theorem Alike.pure {a b : α} (h : r a b) : Alike π r (Pure.pure a) (Pure.pure b) :=
  fun _ _ hm => .done h hm

theorem Alike.breakOff (breach : Breach) :
    Alike π r (Eval.breakOff breach) (Eval.breakOff breach) :=
  fun _ _ hm => .broken breach hm

/-- What is alike goes on alike. All rules are made of this one and of the steps below. -/
theorem Alike.bind {e f : Eval α} {next next' : α → Eval β} (h : Alike π r e f)
    (hnext : ∀ {a b}, r a b → Alike π s (next a) (next' b)) :
    Alike π s (e >>= next) (f >>= next') := by
  intro m n hm
  show Outcome.Alike π s (Eval.bind e next m) (Eval.bind f next' n)
  unfold Eval.bind
  have hfirst := h m n hm
  generalize e m = o, f n = o' at hfirst
  cases hfirst with
  | done hvalue hm' => exact hnext hvalue _ _ hm'
  | broken breach hm' => exact .broken breach hm'
  | tooDeep hm' => exact .tooDeep hm'

theorem Alike.map {e f : Eval α} {g g' : α → β} (h : Alike π r e f)
    (hnext : ∀ {a b}, r a b → s (g a) (g' b)) : Alike π s (g <$> e) (g' <$> f) :=
  h.bind fun hvalue => .pure (hnext hvalue)

theorem Alike.asResult {e f : Eval Value} (h : Alike π (Value.Alike π) e f) :
    Alike π (Option.Rel (Value.Alike π)) (some <$> e) (some <$> f) :=
  h.map .some

/-- The numbers given out next stand for each other. -/
theorem freshId_alike : Alike π π.number freshId freshId := by
  intro m n hm
  have hnext : ∀ k, π.number (m.nextId + 1 + k) (n.nextId + 1 + k) := by
    intro k
    rw [Nat.add_assoc, Nat.add_assoc]
    exact hm.numbers (1 + k)
  exact .done (hm.numbers 0) ⟨hnext, hm.fresh, hm.scopes, hm.printed⟩

theorem note_alike (a b : Note) : Alike π (fun _ _ => True) (note a) (note b) :=
  fun _ _ hm => .done trivial ⟨hm.numbers, hm.fresh, hm.scopes, hm.printed⟩

theorem printLine_alike (line : String) :
    Alike π (fun _ _ => True) (printLine line) (printLine line) := by
  intro m n hm
  obtain ⟨lines, hleft, hright⟩ := hm.printed
  have hprinted : ∃ more, m.printed.push line = π.printed ++ more ∧
      n.printed.push line = π.printed' ++ more := by
    refine ⟨lines.push line, ?_, ?_⟩
    · rw [hleft, Array.push_append]
    · rw [hright, Array.push_append]
  exact .done trivial ⟨hm.numbers, hm.fresh, hm.scopes, hprinted⟩

variable {c d : ScopeId}

/-- A name is found in both runs or in neither, with values alike. -/
theorem lookup_alike (hscope : π.scope c d) (name : String) :
    Alike π (Option.Rel (Value.Alike π)) (lookup c name) (lookup d name) :=
  fun _ _ hm => .done (hm.get? hscope name) hm

theorem bindName_alike (hscope : π.scope c d) (name : String) {v w : Value}
    (hvalue : Value.Alike π v w) :
    Alike π (fun _ _ => True) (bindName c name v) (bindName d name w) :=
  fun _ _ hm => .done trivial (hm.bind hscope name hvalue)

/-- A call in both runs makes scopes that stand for each other. -/
theorem newScope_alike (hscope : π.scope c d) :
    Alike π π.scope (newScope (some c)) (newScope (some d)) :=
  fun _ _ hm => .done (hm.fresh 0) (hm.enclose hscope)

theorem newArray_alike {vs ws : List Value} (h : List.Forall₂ (Value.Alike π) vs ws) :
    Alike π (Value.Alike π) (newArray vs) (newArray ws) :=
  freshId_alike.bind fun hid => .pure (.array hid h)

theorem newHash_alike {ps qs : List (Key × Value)}
    (h : List.Forall₂ (Value.Keyed (Value.Alike π)) ps qs) :
    Alike π (Value.Alike π) (newHash ps) (newHash qs) :=
  freshId_alike.bind fun hid => .pure (.hash hid h)

theorem newReturned_alike {v w : Value} (h : Value.Alike π v w) :
    Alike π (Value.Alike π) (newReturned v) (newReturned w) :=
  freshId_alike.bind fun hid => .pure (.returned hid h)

/-- A closure takes the scope it is made in along, which stands for that of the other. -/
theorem function_alike (hscope : π.scope c d) (parameters : List Ident) (body : Node) :
    Alike π (Value.Alike π) (Eval.function c parameters body)
      (Eval.function d parameters body) := by
  apply (note_alike _ _).bind
  intro _ _ _
  exact freshId_alike.bind fun hid => .pure (.function _ body hid hscope)

theorem ident_alike (hscope : π.scope c d) (name : String) :
    Alike π (Value.Alike π) (Eval.ident c name) (Eval.ident d name) := by
  apply (lookup_alike hscope name).bind
  intro found found' h
  cases h with
  | some hvalue => exact .pure hvalue
  | none =>
      simp only
      cases Builtin.ofName? name with
      | some f => exact .pure (.builtin f)
      | none => exact .pure (.error _)

theorem printAll_alike {vs ws : List Value} (h : List.Forall₂ (Value.Alike π) vs ws) :
    Alike π (Value.Alike π) (Builtin.printAll vs) (Builtin.printAll ws) := by
  induction h with
  | nil => exact .pure .null
  | cons hfirst _ ih =>
      unfold Builtin.printAll
      rw [hfirst.inspect_eq]
      exact (printLine_alike _).bind fun _ => ih

/-- Arguments of the same types are taken or refused alike. -/
theorem arrayArgument_alike (f : Builtin) (wanted : Nat) {vs ws : List Value}
    (h : List.Forall₂ (Value.Alike π) vs ws) :
    SameResult (List.Forall₂ (Value.Alike π)) (f.arrayArgument wanted vs)
      (f.arrayArgument wanted ws) := by
  unfold Builtin.arrayArgument
  rw [h.length_eq]
  split
  · exact .error _
  cases h with
  | nil => exact .ok .nil
  | cons hfirst _ =>
      cases hfirst with
      | array hid hall => exact .ok hall
      | _ => exact .error _

theorem onArray_alike (f : Builtin) {vs ws : List Value}
    (h : List.Forall₂ (Value.Alike π) vs ws) {body : List Value → Eval Value}
    (hbody : ∀ {xs ys}, List.Forall₂ (Value.Alike π) xs ys →
      Alike π (Value.Alike π) (body xs) (body ys)) :
    Alike π (Value.Alike π) (f.onArray vs body) (f.onArray ws body) := by
  have hresult := arrayArgument_alike f 1 h
  unfold Builtin.onArray
  generalize f.arrayArgument 1 vs = found, f.arrayArgument 1 ws = found' at hresult
  cases hresult with
  | ok hall => exact hbody hall
  | error reason => exact .pure (.error reason)

theorem length_alike {vs ws : List Value} (h : List.Forall₂ (Value.Alike π) vs ws) :
    Value.Alike π (Builtin.length vs) (Builtin.length ws) := by
  cases h with
  | nil => exact .error _
  | cons hfirst hrest =>
      cases hrest with
      | nil =>
          cases hfirst with
          | text s => exact .integer _
          | array hid hall =>
              simp only [Builtin.length, hall.length_eq]
              exact .integer _
          | _ => exact .error _
      | cons _ hmore =>
          simp only [Builtin.length, List.length_cons, hmore.length_eq]
          exact .error _

theorem tail_alike {vs ws : List Value} (h : List.Forall₂ (Value.Alike π) vs ws) :
    List.Forall₂ (Value.Alike π) vs.tail ws.tail := by
  cases h with
  | nil => exact .nil
  | cons _ hrest => exact hrest

theorem dropLast_alike {vs ws : List Value} (h : List.Forall₂ (Value.Alike π) vs ws) :
    List.Forall₂ (Value.Alike π) vs.dropLast ws.dropLast := by
  rw [List.dropLast_eq_take, List.dropLast_eq_take, h.length_eq]
  exact List.forall₂_take _ h

theorem getLast?_alike {vs ws : List Value} (h : List.Forall₂ (Value.Alike π) vs ws) :
    Option.Rel (Value.Alike π) vs.getLast? ws.getLast? := by
  rw [List.getLast?_eq_getElem?, List.getLast?_eq_getElem?, h.length_eq]
  exact Value.alike_getElem? h _

/-- The seven functions ask for types, lengths and elements, never for a number. -/
theorem builtin_alike (f : Builtin) {vs ws : List Value}
    (h : List.Forall₂ (Value.Alike π) vs ws) :
    Alike π (Value.Alike π) (f.apply vs) (f.apply ws) := by
  have hshorter {cut : List Value → List Value}
      (hcut : ∀ {xs ys}, List.Forall₂ (Value.Alike π) xs ys →
        List.Forall₂ (Value.Alike π) (cut xs) (cut ys)) (g : Builtin) :
      Alike π (Value.Alike π)
        (g.onArray vs fun xs => if xs.isEmpty then return .null else newArray (cut xs))
        (g.onArray ws fun xs => if xs.isEmpty then return .null else newArray (cut xs)) := by
    apply onArray_alike g h
    intro xs ys hall
    cases hall with
    | nil => exact .pure .null
    | cons hfirst hrest => exact newArray_alike (hcut (.cons hfirst hrest))
  cases f with
  | len => exact .pure (length_alike h)
  | first =>
      apply onArray_alike _ h
      intro xs ys hall
      cases hall with
      | nil => exact .pure .null
      | cons hfirst _ => exact .pure hfirst
  | last =>
      apply onArray_alike _ h
      intro xs ys hall
      exact .pure (Value.alike_getD (getLast?_alike hall))
  | rest => exact hshorter tail_alike .rest
  | pop => exact hshorter dropLast_alike .pop
  | push =>
      have hresult := arrayArgument_alike .push 2 h
      simp only [Builtin.apply]
      generalize Builtin.push.arrayArgument 2 vs = found,
        Builtin.push.arrayArgument 2 ws = found' at hresult
      cases hresult with
      | ok hall => exact newArray_alike (List.rel_append hall (tail_alike h))
      | error reason => exact .pure (.error reason)
  | puts => exact printAll_alike h

section Rules

variable {step step' : Step}

theorem value_alike {node : Node}
    (h : Alike π (Option.Rel (Value.Alike π)) (step node) (step' node)) :
    Alike π (Value.Alike π) (value step node) (value step' node) := by
  apply h.bind
  intro found found' hfound
  cases hfound with
  | some hvalue => exact .pure hvalue
  | none => exact .breakOff _

/-- Values alike are errors alike, so both runs go on or neither does. -/
theorem withValue_alike {node : Node} {next next' : Value → Eval (Option Value)}
    (h : Alike π (Option.Rel (Value.Alike π)) (step node) (step' node))
    (hnext : ∀ {v w}, Value.Alike π v w →
      Alike π (Option.Rel (Value.Alike π)) (next v) (next' w)) :
    Alike π (Option.Rel (Value.Alike π)) (withValue step node next)
      (withValue step' node next') := by
  apply (value_alike h).bind
  intro v w hvalue
  simp only [hvalue.isError_eq]
  split
  · exact .pure (.some hvalue)
  · exact hnext hvalue

variable (hstep : ∀ node, Alike π (Option.Rel (Value.Alike π)) (step node) (step' node))

include hstep

/-- What ends the statements of one run ends those of the other at the same statement. -/
theorem statements_alike (nodes : List Node) {result result' : Option Value}
    (hresult : Option.Rel (Value.Alike π) result result') :
    Alike π (Option.Rel (Value.Alike π)) (statements step nodes result)
      (statements step' nodes result') := by
  induction nodes generalizing result result' with
  | nil => exact .pure hresult
  | cons node nodes ih =>
      apply (hstep node).bind
      intro found found' hfound
      cases hfound with
      | none => exact ih .none
      | some hvalue =>
          simp only [hvalue.isExit_eq]
          split
          · exact .pure (.some hvalue)
          · exact ih (.some hvalue)

theorem branch_alike (block : Node) :
    Alike π (Option.Rel (Value.Alike π)) (branch step block) (branch step' block) := by
  apply (statements_alike hstep block.statements .none).bind
  intro result result' hresult
  exact .pure (.some (Value.alike_getD hresult))

/-- From left to right; what has been found so far is alike. -/
theorem values_alike (nodes : List Node) {found found' : List Value}
    (hfound : List.Forall₂ (Value.Alike π) found found') :
    Alike π (SameResult (List.Forall₂ (Value.Alike π))) (values step nodes found)
      (values step' nodes found') := by
  induction nodes generalizing found found' with
  | nil => exact .pure (.ok (List.rel_reverse hfound))
  | cons node nodes ih =>
      apply (value_alike (hstep node)).bind
      intro v w hvalue
      have hmore := ih (.cons hvalue hfound)
      cases hvalue with
      | error reason => exact .pure (.error reason)
      | _ => exact hmore

/-- Keys are equal where values are alike, so pairs are entered in the same places. -/
theorem pairs_alike (nodes : List (Node × Node)) {found found' : List (Key × Value)}
    (hfound : List.Forall₂ (Value.Keyed (Value.Alike π)) found found') :
    Alike π (SameResult (List.Forall₂ (Value.Keyed (Value.Alike π))))
      (pairs step nodes found) (pairs step' nodes found') := by
  induction nodes generalizing found found' with
  | nil => exact .pure (.ok hfound)
  | cons pair nodes ih =>
      apply (value_alike (hstep pair.1)).bind
      intro key key' hkey
      cases hkey with
      | integer _ | boolean _ | text _ =>
          apply (value_alike (hstep pair.2)).bind
          intro v w hvalue
          have hmore (k : Key) := ih (Value.insertPair_keyed hfound k hvalue)
          cases hvalue with
          | error reason => exact .pure (.error reason)
          | _ => exact hmore _
      | _ => exact .pure (.error _)

end Rules

theorem bindAll_alike (hscope : π.scope c d) (names : List String) {vs ws : List Value}
    (h : List.Forall₂ (Value.Alike π) vs ws) :
    Alike π (fun _ _ => True) (bindAll c names vs) (bindAll d names ws) := by
  induction names generalizing vs ws with
  | nil => exact .pure trivial
  | cons name names ih =>
      cases h with
      | nil => exact .pure trivial
      | cons hfirst hrest =>
          exact (bindName_alike hscope name hfirst).bind fun _ => ih hrest

/-- A function and its counterpart have the same parameters and body, and captured scopes that stand
for each other. -/
theorem apply_alike {stepIn : ScopeId → Step}
    (hstep : ∀ {c d}, π.scope c d → ∀ node,
      Alike π (Option.Rel (Value.Alike π)) (stepIn c node) (stepIn d node))
    {f g : Value} (hcallee : Value.Alike π f g) {vs ws : List Value}
    (h : List.Forall₂ (Value.Alike π) vs ws) :
    Alike π (Value.Alike π) (apply stepIn f vs) (apply stepIn g ws) := by
  cases hcallee with
  | function parameters body hid hcaptured =>
      simp only [apply, h.length_eq]
      split
      · exact .pure (.error _)
      · apply (note_alike _ _).bind
        intro _ _ _
        apply (newScope_alike hcaptured).bind
        intro scope scope' hscope
        apply (bindAll_alike hscope parameters h).bind
        intro _ _ _
        apply (statements_alike (hstep hscope) body.statements .none).bind
        intro result result' hresult
        exact .pure (Value.alike_getD hresult).unwrap
  | builtin b => exact builtin_alike b h
  | _ => exact .pure (.error _)

end Eval

open Eval

/-- From machines alike, in scopes that stand for each other, evaluation of a tree ends
alike. -/
theorem evaluate_alike (levels : Nat) {c d : ScopeId} (hscope : π.scope c d) (node : Node) :
    Alike π (Option.Rel (Value.Alike π)) (evaluate levels c node)
      (evaluate levels d node) := by
  induction levels generalizing c d node with
  | zero => exact fun _ _ hm => .tooDeep hm
  | succ levels ih =>
      have hstep (child : Node) :
          Alike π (Option.Rel (Value.Alike π)) (evaluate levels c child)
            (evaluate levels d child) :=
        ih hscope child
      cases node with
      | bare t => exact .breakOff _
      | program nodes =>
          apply (statements_alike hstep nodes .none).bind
          intro result result' hresult
          exact .pure (rel_map hresult Value.Alike.unwrap)
      | block t nodes => exact statements_alike hstep nodes .none
      | binding t name valueNode =>
          apply withValue_alike (hstep valueNode)
          intro v w hvalue
          exact (bindName_alike hscope name.name hvalue).bind fun _ => .pure .none
      | ret t found =>
          cases found with
          | none => exact (newReturned_alike .null).asResult
          | some valueNode =>
              apply withValue_alike (hstep valueNode)
              intro v w hvalue
              exact (newReturned_alike hvalue).asResult
      | expression t valueNode => exact (value_alike (hstep valueNode)).asResult
      | ident id => exact (ident_alike hscope id.name).asResult
      | integer t n => exact .pure (.some (.integer n))
      | boolean t b => exact .pure (.some (.boolean b))
      | text t s => exact .pure (.some (.text s))
      | array t nodes =>
          apply (values_alike hstep nodes .nil).bind
          intro found found' hfound
          cases hfound with
          | ok hall => exact (newArray_alike hall).asResult
          | error reason => exact .pure (.some (.error reason))
      | hash t nodes =>
          apply (pairs_alike hstep nodes .nil).bind
          intro found found' hfound
          cases hfound with
          | ok hall => exact (newHash_alike hall).asResult
          | error reason => exact .pure (.some (.error reason))
      | unary t operator operand =>
          apply withValue_alike (hstep operand)
          intro v w hvalue
          exact .pure (.some (Value.alike_unary operator hvalue))
      | binary t left operator right =>
          apply withValue_alike (hstep left)
          intro l l' hleft
          apply withValue_alike (hstep right)
          intro r r' hright
          exact .pure (.some (Value.alike_binary operator hleft hright))
      | conditional t condition consequence alternative =>
          apply withValue_alike (hstep condition)
          intro v w hvalue
          simp only [hvalue.isTruthy_eq]
          split
          · exact branch_alike hstep consequence
          · cases alternative with
            | some block => exact branch_alike hstep block
            | none => exact .pure (.some .null)
      | function t parameters body => exact (function_alike hscope parameters body).asResult
      | call t callee nodes =>
          apply withValue_alike (hstep callee)
          intro f g hcallee
          apply (values_alike hstep nodes .nil).bind
          intro found found' hfound
          cases hfound with
          | ok hall => exact (apply_alike ih hcallee hall).asResult
          | error reason => exact .pure (.some (.error reason))
      | index t collection place =>
          apply withValue_alike (hstep collection)
          intro v w hvalue
          apply withValue_alike (hstep place)
          intro i i' hplace
          exact .pure (.some (Value.alike_index hvalue hplace))

end Scriptlet
