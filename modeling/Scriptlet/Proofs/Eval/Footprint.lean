import Scriptlet.Eval.Evaluate
import Scriptlet.Proofs.Tree.Occurrence

/-!
What evaluation leaves behind. Evaluation in a scope makes new scopes and binds names in
its own, and does nothing else to the scopes that are there: the others stay as they
are, its own keeps its enclosing scope and its names, and only names that the tree binds
outside function literals can come to stand for something else. A call works in a scope
of its own, so it leaves every scope that was there as it was.
-/

namespace Scriptlet

namespace Scope

/-- A scope later on: it lies where it lay, the names it had are there in their order,
and only the names told may stand for something else. -/
structure Grown (mayBind : String → Prop) (before after : Scope) : Prop where
  outer_eq : after.outer = before.outer
  names : before.bindings.map Prod.fst <+: after.bindings.map Prod.fst
  get?_eq : ∀ name, ¬ mayBind name → after.get? name = before.get? name

variable {mayBind mayBind' : String → Prop} {s t u : Scope}

theorem Grown.refl : Grown mayBind s s :=
  ⟨rfl, List.prefix_rfl, fun _ _ => rfl⟩

/-- What two runs one after the other may bind is what either may. -/
theorem Grown.trans (hst : Grown mayBind s t) (htu : Grown mayBind t u) :
    Grown mayBind s u where
  outer_eq := htu.outer_eq.trans hst.outer_eq
  names := hst.names.trans htu.names
  get?_eq name hname := (htu.get?_eq name hname).trans (hst.get?_eq name hname)

theorem Grown.mono (h : Grown mayBind s t) (hle : ∀ name, mayBind name → mayBind' name) :
    Grown mayBind' s t :=
  ⟨h.outer_eq, h.names, fun name hname => h.get?_eq name fun hbind => hname (hle name hbind)⟩

/-- A binding leaves the names there in their order and puts a new one behind them. -/
theorem names_bindGo (name : String) (value : Value) (bindings : List (String × Value)) :
    bindings.map Prod.fst <+: (bind.go name value bindings).map Prod.fst := by
  induction bindings with
  | nil => exact List.nil_prefix
  | cons binding bindings ih =>
      unfold bind.go
      split
      next heq => simp [heq]
      next => exact List.cons_prefix_cons.mpr ⟨rfl, ih⟩

/-- A binding changes nothing that another name stands for. -/
theorem lookup_bindGo (name : String) (value : Value) (bindings : List (String × Value))
    {other : String} (h : other ≠ name) :
    (bind.go name value bindings).lookup other = bindings.lookup other := by
  have hbeq : (other == name) = false := beq_eq_false_iff_ne.mpr h
  induction bindings with
  | nil => simp [bind.go, List.lookup_cons, hbeq]
  | cons binding bindings ih =>
      obtain ⟨first, found⟩ := binding
      unfold bind.go
      split
      next heq => simp [List.lookup_cons, heq, hbeq]
      next => simp only [List.lookup_cons, ih]

/-- Binding a name grows the scope by that name at most. -/
theorem grown_bind (s : Scope) (name : String) (value : Value) :
    Grown (· = name) s (s.bind name value) where
  outer_eq := rfl
  names := names_bindGo name value s.bindings
  get?_eq _ hother := lookup_bindGo name value s.bindings hother

end Scope

namespace Machine

/-- What evaluation in a scope may have made of a machine. -/
structure Frame (scope : ScopeId) (mayBind : String → Prop) (before after : Machine) :
    Prop where
  size_le : before.heap.scopes.size ≤ after.heap.scopes.size
  nextId_le : before.nextId ≤ after.nextId
  others : ∀ i, i < before.heap.scopes.size → i ≠ scope →
    after.heap.scopes[i]? = before.heap.scopes[i]?
  own : ∀ s, before.heap.scopes[scope]? = some s →
    ∃ t, after.heap.scopes[scope]? = some t ∧ s.Grown mayBind t

variable {scope : ScopeId} {mayBind mayBind' : String → Prop} {m n o : Machine}

theorem Frame.trans (hmn : Frame scope mayBind m n) (hno : Frame scope mayBind n o) :
    Frame scope mayBind m o where
  size_le := Nat.le_trans hmn.size_le hno.size_le
  nextId_le := Nat.le_trans hmn.nextId_le hno.nextId_le
  others i hi hne :=
    (hno.others i (Nat.lt_of_lt_of_le hi hmn.size_le) hne).trans (hmn.others i hi hne)
  own s hs := by
    obtain ⟨t, ht, hst⟩ := hmn.own s hs
    obtain ⟨u, hu, htu⟩ := hno.own t ht
    exact ⟨u, hu, hst.trans htu⟩

/-- A frame for some names is one for more. -/
theorem Frame.mono (h : Frame scope mayBind m n)
    (hle : ∀ name, mayBind name → mayBind' name) : Frame scope mayBind' m n where
  size_le := h.size_le
  nextId_le := h.nextId_le
  others := h.others
  own s hs := by
    obtain ⟨t, ht, hst⟩ := h.own s hs
    exact ⟨t, ht, hst.mono hle⟩

/-- A step that leaves the scopes alone. -/
theorem frame_of_heap_eq (hheap : n.heap = m.heap) (hnext : m.nextId ≤ n.nextId) :
    Frame scope mayBind m n where
  size_le := Nat.le_of_eq (by rw [hheap])
  nextId_le := hnext
  others i _ _ := by rw [hheap]
  own s hs := ⟨s, by rw [hheap]; exact hs, .refl⟩

/-- The only step that writes to a scope that is there. -/
theorem frame_bind (name : String) (value : Value) :
    Frame scope (· = name) m { m with heap := m.heap.bind scope name value } := by
  refine ⟨by simp [Heap.bind], Nat.le_refl _, ?_, ?_⟩
  · intro i _ hne
    simp [Heap.bind, Array.getElem?_modify, Ne.symm hne]
  · intro s hs
    exact ⟨s.bind name value, by simp [Heap.bind, Array.getElem?_modify, hs],
      s.grown_bind name value⟩

/-- A machine later on in which every scope that was there is as it was. -/
structure Extended (before after : Machine) : Prop where
  size_le : before.heap.scopes.size ≤ after.heap.scopes.size
  nextId_le : before.nextId ≤ after.nextId
  scopes_eq : ∀ i, i < before.heap.scopes.size →
    after.heap.scopes[i]? = before.heap.scopes[i]?

/-- What is written to a scope that was not there concerns none that was. -/
theorem Frame.extended (h : Frame m.heap.scopes.size mayBind m n) : Extended m n :=
  ⟨h.size_le, h.nextId_le, fun i hi => h.others i hi (Nat.ne_of_lt hi)⟩

/-- If nothing that was there has changed, no name of any scope has. -/
theorem Extended.frame (h : Extended m n) : Frame scope mayBind m n where
  size_le := h.size_le
  nextId_le := h.nextId_le
  others i hi _ := h.scopes_eq i hi
  own s hs := by
    have hscope : scope < m.heap.scopes.size := (Array.getElem?_eq_some_iff.mp hs).1
    exact ⟨s, (h.scopes_eq scope hscope).trans hs, .refl⟩

/-- A new scope comes behind those that are there. -/
theorem extended_enclose (outer : Option ScopeId) :
    Extended m { m with heap := (m.heap.enclose outer).2 } := by
  refine ⟨by simp [Heap.enclose], Nat.le_refl _, ?_⟩
  intro i hi
  simp [Heap.enclose, Array.getElem?_push, Nat.ne_of_lt hi]

end Machine

namespace Eval

variable {α β : Type} {scope : ScopeId} {mayBind mayBind' : String → Prop}

/-- However the evaluation ends, it has written to no scope but one, and there only to
the names told. -/
def Frames (scope : ScopeId) (mayBind : String → Prop) (e : Eval α) : Prop :=
  ∀ m, Machine.Frame scope mayBind m (e m).machine

theorem Frames.mono {e : Eval α} (h : Frames scope mayBind e)
    (hle : ∀ name, mayBind name → mayBind' name) : Frames scope mayBind' e :=
  fun m => (h m).mono hle

theorem Frames.pure (a : α) : Frames scope mayBind (Pure.pure a : Eval α) :=
  fun _ => Machine.frame_of_heap_eq rfl (Nat.le_refl _)

theorem Frames.tooDeep : Frames scope mayBind (Eval.tooDeep : Eval α) :=
  fun _ => Machine.frame_of_heap_eq rfl (Nat.le_refl _)

theorem Frames.breakOff (breach : Breach) :
    Frames scope mayBind (Eval.breakOff breach : Eval α) :=
  fun _ => Machine.frame_of_heap_eq rfl (Nat.le_refl _)

/-- Frames compose: both parts write to the same scope, and only to the names told. -/
theorem Frames.bind {e : Eval α} {next : α → Eval β} (h : Frames scope mayBind e)
    (hnext : ∀ a, Frames scope mayBind (next a)) : Frames scope mayBind (e >>= next) := by
  intro m
  have hfirst := h m
  show Machine.Frame scope mayBind m (Eval.bind e next m).machine
  unfold Eval.bind
  cases hrun : e m with
  | done a m' =>
      rw [hrun] at hfirst
      exact hfirst.trans (hnext a m')
  | broken breach m' =>
      rw [hrun] at hfirst
      exact hfirst
  | tooDeep m' =>
      rw [hrun] at hfirst
      exact hfirst

theorem Frames.map {e : Eval α} (f : α → β) (h : Frames scope mayBind e) :
    Frames scope mayBind (f <$> e) :=
  h.bind fun _ => .pure _

theorem freshId_frames : Frames scope mayBind freshId :=
  fun _ => Machine.frame_of_heap_eq rfl (Nat.le_succ _)

theorem note_frames (n : Note) : Frames scope mayBind (note n) :=
  fun _ => Machine.frame_of_heap_eq rfl (Nat.le_refl _)

theorem printLine_frames (line : String) : Frames scope mayBind (printLine line) :=
  fun _ => Machine.frame_of_heap_eq rfl (Nat.le_refl _)

theorem lookup_frames (place : ScopeId) (name : String) :
    Frames scope mayBind (lookup place name) :=
  fun _ => Machine.frame_of_heap_eq rfl (Nat.le_refl _)

theorem bindName_frames (name : String) (value : Value) :
    Frames scope (· = name) (bindName scope name value) :=
  fun _ => Machine.frame_bind name value

theorem newScope_frames (outer : Option ScopeId) :
    Frames scope mayBind (newScope outer) :=
  fun _ => (Machine.extended_enclose outer).frame

theorem newArray_frames (elements : List Value) :
    Frames scope mayBind (newArray elements) :=
  freshId_frames.bind fun _ => .pure _

theorem newHash_frames (pairs : List (Key × Value)) :
    Frames scope mayBind (newHash pairs) :=
  freshId_frames.bind fun _ => .pure _

theorem newReturned_frames (value : Value) : Frames scope mayBind (newReturned value) :=
  freshId_frames.bind fun _ => .pure _

/-- Making a closure writes to no scope; calling it later is another matter. -/
theorem function_frames (place : ScopeId) (parameters : List Ident) (body : Node) :
    Frames scope mayBind (Eval.function place parameters body) :=
  (note_frames _).bind fun _ => freshId_frames.bind fun _ => .pure _

/-- Looking a name up writes nothing, whatever scope it is looked up from. -/
theorem ident_frames (place : ScopeId) (name : String) :
    Frames scope mayBind (Eval.ident place name) := by
  apply (lookup_frames place name).bind
  intro found
  cases found with
  | some v => exact .pure _
  | none =>
      simp only
      cases Builtin.ofName? name with
      | some f => exact .pure _
      | none => exact .pure _

theorem printAll_frames (arguments : List Value) :
    Frames scope mayBind (Builtin.printAll arguments) := by
  induction arguments with
  | nil => exact .pure _
  | cons v vs ih => exact (printLine_frames _).bind fun _ => ih

theorem onArray_frames (f : Builtin) (arguments : List Value)
    {body : List Value → Eval Value} (hbody : ∀ elements, Frames scope mayBind (body elements)) :
    Frames scope mayBind (f.onArray arguments body) := by
  unfold Builtin.onArray
  split
  · exact hbody _
  · exact .pure _

/-- Of the seven functions none writes to a scope. -/
theorem builtin_frames (f : Builtin) (arguments : List Value) :
    Frames scope mayBind (f.apply arguments) := by
  cases f with
  | len => exact .pure _
  | first => exact onArray_frames _ _ fun _ => .pure _
  | last => exact onArray_frames _ _ fun _ => .pure _
  | rest | pop =>
      apply onArray_frames
      intro elements
      split
      · exact .pure _
      · exact newArray_frames _
  | push =>
      simp only [Builtin.apply]
      split
      · exact newArray_frames _
      · exact .pure _
  | puts => exact printAll_frames arguments

section Rules

variable {step : Step}

theorem value_frames {node : Node} (h : Frames scope mayBind (step node)) :
    Frames scope mayBind (value step node) := by
  apply h.bind
  intro found
  cases found with
  | some v => exact .pure v
  | none => exact .breakOff _

theorem withValue_frames {node : Node} {next : Value → Eval (Option Value)}
    (h : Frames scope mayBind (step node)) (hnext : ∀ v, Frames scope mayBind (next v)) :
    Frames scope mayBind (withValue step node next) := by
  apply (value_frames h).bind
  intro v
  split
  · exact .pure _
  · exact hnext v

/-- The names that statements may bind are those that each of them may. -/
theorem statements_frames {nodes : List Node}
    (h : ∀ node ∈ nodes, Frames scope mayBind (step node)) (result : Option Value) :
    Frames scope mayBind (statements step nodes result) := by
  induction nodes generalizing result with
  | nil => exact .pure _
  | cons node nodes ih =>
      rw [List.forall_mem_cons] at h
      apply h.1.bind
      intro found
      cases found with
      | none => exact ih h.2 none
      | some v =>
          simp only
          split
          · exact .pure _
          · exact ih h.2 (some v)

theorem values_frames {nodes : List Node}
    (h : ∀ node ∈ nodes, Frames scope mayBind (step node)) (found : List Value) :
    Frames scope mayBind (values step nodes found) := by
  induction nodes generalizing found with
  | nil => exact .pure _
  | cons node nodes ih =>
      rw [List.forall_mem_cons] at h
      apply (value_frames h.1).bind
      intro v
      split
      · exact .pure _
      · exact ih h.2 (v :: found)

theorem pairs_frames {nodes : List (Node × Node)}
    (h : ∀ pair ∈ nodes, Frames scope mayBind (step pair.1) ∧ Frames scope mayBind (step pair.2))
    (found : List (Key × Value)) : Frames scope mayBind (pairs step nodes found) := by
  induction nodes generalizing found with
  | nil => exact .pure _
  | cons pair nodes ih =>
      rw [List.forall_mem_cons] at h
      apply (value_frames h.1.1).bind
      intro key
      split
      · exact .pure _
      · split
        · exact .pure _
        · apply (value_frames h.1.2).bind
          intro v
          split
          · exact .pure _
          · exact ih h.2 _

theorem branch_frames {block : Node}
    (h : ∀ node ∈ block.statements, Frames scope mayBind (step node)) :
    Frames scope mayBind (branch step block) :=
  (statements_frames h none).bind fun _ => .pure _

/-- Parameters can have any name, but they are bound in the scope of the call. -/
theorem bindAll_frames (names : List String) (arguments : List Value) :
    Frames scope (fun _ => True) (bindAll scope names arguments) := by
  induction names generalizing arguments with
  | nil => exact .pure _
  | cons name names ih =>
      cases arguments with
      | nil => exact .pure _
      | cons v vs =>
          exact ((bindName_frames name v).mono fun _ _ => trivial).bind fun _ => ih vs

end Rules

/-- Whoever calls, and in whatever scope the callee was made, a call leaves every scope
that was there as it was. -/
theorem apply_frames {stepIn : ScopeId → Step}
    (hstep : ∀ scope node, Frames scope node.Binds (stepIn scope node)) (callee : Value)
    (arguments : List Value) (m : Machine) :
    m.Extended (apply stepIn callee arguments m).machine := by
  -- The scope of a call is the first that was not there.
  suffices h : m.Frame m.heap.scopes.size (fun _ => True)
      (apply stepIn callee arguments m).machine from h.extended
  cases callee with
  | function id parameters body captured =>
      simp only [apply]
      split
      · exact Frames.pure _ m
      · have hbody : Frames m.heap.scopes.size (fun _ => True) (do
            bindAll m.heap.scopes.size parameters arguments
            let result ← statements (stepIn m.heap.scopes.size) body.statements none
            return (result.getD .null).unwrap) := by
          apply (bindAll_frames parameters arguments).bind
          intro _
          apply (statements_frames (fun node _ => ?_) none).bind
          · intro result
            exact .pure _
          · exact (hstep _ node).mono fun _ _ => trivial
        have hnote : Frames m.heap.scopes.size (fun _ => True)
            (note (.applying (.function id parameters body captured) arguments.length)) :=
          note_frames _
        exact ((hnote m).trans (newScope_frames (some captured) _)).trans (hbody _)
  | builtin f => exact builtin_frames f arguments m
  | _ => exact Frames.pure _ m

end Eval

open Eval

/-- Evaluation in a scope binds names there, those that the tree binds outside function
literals, and writes nowhere else. -/
theorem evaluate_frames (levels : Nat) (scope : ScopeId) (node : Node) :
    Frames scope node.Binds (evaluate levels scope node) := by
  induction levels generalizing scope node with
  | zero => exact .tooDeep
  | succ levels ih =>
      have hchild {child : Node} (hfunction : node.isFunction = false)
          (h : child ∈ node.children) :
          Frames scope node.Binds (evaluate levels scope child) :=
        (ih scope child).mono fun _ hbinds => .inside hfunction h hbinds
      have hblock {block : Node} (hfunction : node.isFunction = false)
          (h : block ∈ node.children) :
          ∀ n ∈ block.statements, Frames scope node.Binds (evaluate levels scope n) :=
        fun n hn => (ih scope n).mono fun _ hbinds => hbinds.of_statements hn h hfunction
      cases node with
      | bare t => exact .breakOff _
      | program nodes =>
          exact (statements_frames (fun _ h => hchild rfl h) none).bind fun _ => .pure _
      | block t nodes => exact statements_frames (fun _ h => hchild rfl h) none
      | binding t name valueNode =>
          apply withValue_frames (hchild rfl (by simp [Node.children]))
          intro v
          apply Frames.bind
          · apply (bindName_frames name.name v).mono
            rintro _ rfl
            exact .here ⟨t, name, valueNode, rfl, rfl⟩
          · intro _
            exact .pure _
      | ret t found =>
          cases found with
          | none => exact (newReturned_frames _).map _
          | some valueNode =>
              apply withValue_frames (hchild rfl (by simp [Node.children]))
              intro v
              exact (newReturned_frames v).map _
      | expression t valueNode =>
          exact (value_frames (hchild rfl (by simp [Node.children]))).map _
      | ident id => exact (ident_frames scope id.name).map _
      | integer t n => exact .pure _
      | boolean t b => exact .pure _
      | text t s => exact .pure _
      | array t nodes =>
          apply (values_frames (fun _ h => hchild rfl h) []).bind
          intro found
          cases found with
          | ok elements => exact (newArray_frames elements).map _
          | error reason => exact .pure _
      | hash t nodes =>
          have hpairs : ∀ pair ∈ nodes,
              Frames scope (Node.hash t nodes).Binds (evaluate levels scope pair.1) ∧
              Frames scope (Node.hash t nodes).Binds (evaluate levels scope pair.2) := by
            intro pair hpair
            constructor
            · exact hchild rfl (List.mem_flatMap.mpr ⟨pair, hpair, by simp⟩)
            · exact hchild rfl (List.mem_flatMap.mpr ⟨pair, hpair, by simp⟩)
          apply (pairs_frames hpairs []).bind
          intro found
          cases found with
          | ok pairs => exact (newHash_frames pairs).map _
          | error reason => exact .pure _
      | unary t operator operand =>
          apply withValue_frames (hchild rfl (by simp [Node.children]))
          intro v
          exact .pure _
      | binary t left operator right =>
          apply withValue_frames (hchild rfl (by simp [Node.children]))
          intro l
          apply withValue_frames (hchild rfl (by simp [Node.children]))
          intro r
          exact .pure _
      | conditional t condition consequence alternative =>
          apply withValue_frames (hchild rfl (by simp [Node.children]))
          intro v
          split
          · exact branch_frames (hblock rfl (by simp [Node.children]))
          · cases alternative with
            | some block => exact branch_frames (hblock rfl (by simp [Node.children]))
            | none => exact .pure _
      | function t parameters body => exact (function_frames scope parameters body).map _
      | call t callee nodes =>
          apply withValue_frames (hchild rfl (by simp [Node.children]))
          intro f
          apply (values_frames (fun _ h => hchild rfl (by simp [Node.children, h])) []).bind
          intro found
          cases found with
          | error reason => exact .pure _
          | ok arguments =>
              apply Frames.map
              intro m
              exact (apply_frames ih f arguments m).frame
      | index t collection place =>
          apply withValue_frames (hchild rfl (by simp [Node.children]))
          intro c
          apply withValue_frames (hchild rfl (by simp [Node.children]))
          intro i
          exact .pure _

/-- Evaluation writes only to the scope it runs in. However it ends, every other scope
that was there is as it was; its own scope lies where it lay and has all its names, and
none stands for anything else unless the tree binds it outside function literals. A call
leaves all the scopes that were there as they were, its caller's and the one that the
callee captured among them. -/
theorem evaluate_writes_own_scope (levels : Nat) (scope : ScopeId) (node : Node)
    (m : Machine) :
    m.Frame scope node.Binds (evaluate levels scope node m).machine ∧
      ∀ callee arguments,
        m.Extended (apply (evaluate levels) callee arguments m).machine := by
  constructor
  · exact evaluate_frames levels scope node m
  · intro callee arguments
    exact apply_frames (evaluate_frames levels) callee arguments m

end Scriptlet
