import Scriptlet.Proofs.Eval.Traced
import Scriptlet.Proofs.Eval.Unbroken
import Scriptlet.Proofs.Value.Ranged

/-!
Integers stay in the 64-bit range, over programs that are evaluated one after the other. A rule
is given values in range and gives such values, provided that the texts and arrays that come up
are no longer than the largest integer. That a value is short is known as soon as it has been
entered in the record, and so of every operand.
-/

namespace Scriptlet

/-- All integers that are bound lie in the 64-bit range. -/
def Machine.Ranged (m : Machine) : Prop :=
  ∀ v, m.heap.Stores v → v.Ranged

namespace Moment

/-- All integers that are there at the moment lie in the 64-bit range. -/
structure Ranged (moment : Moment) : Prop where
  found : ∀ v ∈ moment.found, v.Ranged
  bound : moment.machine.Ranged

/-- No text and no array that comes up at the moment is longer than the largest integer. -/
def Short (moment : Moment) : Prop :=
  ∀ v ∈ moment.found, v.Short

end Moment

namespace Machine

variable {m : Machine}

theorem ranged_withScope : Machine.withScope.2.Ranged := by
  rintro v ⟨s, hs, name, hbinding⟩
  cases Array.mem_singleton.mp hs
  cases hbinding

/-- What is bound must be in range. -/
theorem Ranged.bind (h : m.Ranged) (scope : ScopeId) (name : String) {v : Value}
    (hv : v.Ranged) : ({ m with heap := m.heap.bind scope name v } : Machine).Ranged := by
  intro u hstored
  rcases Heap.stores_bind hstored with rfl | hold
  · exact hv
  · exact h u hold

theorem Ranged.enclose (h : m.Ranged) (outer : Option ScopeId) :
    ({ m with heap := (m.heap.enclose outer).2 } : Machine).Ranged :=
  fun u hstored => h u (Heap.stores_enclose hstored)

end Machine

namespace Traced

variable {α β : Type} {m : Machine}

/-- As long as only short texts and arrays come up, all integers that do are in range, those that
are bound in the end are, and the result, if there is one, is good. -/
def Bounded (m : Machine) (good : α → Prop) (e : Traced α) : Prop :=
  (∀ moment ∈ (e m).1, moment.Short) →
    (∀ moment ∈ (e m).1, moment.Ranged) ∧ (e m).2.machine.Ranged ∧
      ∀ a m', (e m).2 = .done a m' → good a

/-- A value that has been entered in the record. -/
def Entered (v : Value) : Prop :=
  v.Ranged ∧ v.Short

def RangedAny (found : Option Value) : Prop :=
  ∀ v ∈ found, v.Ranged

def EnteredAny (found : Option Value) : Prop :=
  ∀ v ∈ found, Entered v

theorem rangedAny_none : RangedAny none := nofun

theorem rangedAny_some {v : Value} (h : v.Ranged) : RangedAny (some v) := by
  rintro _ ⟨⟩
  exact h

namespace Bounded

variable {good : α → Prop} {good' : β → Prop}

/-- A plain evaluation enters nothing, so only its machine and its result are asked. -/
theorem lift {e : Eval α} (hm : (e m).machine.Ranged)
    (h : ∀ a m', e m = .done a m' → good a) : Bounded m good (Traced.lift e) :=
  fun _ => ⟨nofun, hm, h⟩

theorem pure (hm : m.Ranged) {a : α} (h : good a) : Bounded m good (Pure.pure a) := by
  refine fun _ => ⟨nofun, hm, ?_⟩
  rintro _ _ ⟨⟩
  exact h

/-- The record of the second part is that of a machine in range, with a result that is good. -/
theorem bind {e : Traced α} {next : α → Traced β} (h : Bounded m good e)
    (hnext : ∀ a m', m'.Ranged → good a → Bounded m' good' (next a)) :
    Bounded m good' (e >>= next) := by
  show Bounded m good' (Traced.bind e next)
  unfold Bounded at h
  unfold Bounded Traced.bind
  generalize e m = run at h
  rcases run with ⟨seen, a | breach | _⟩
  · next m' =>
      intro hshort
      rw [List.forall_mem_append] at hshort
      obtain ⟨hseen, hm', hgood⟩ := h hshort.1
      obtain ⟨hmore, hrest⟩ := hnext a m' hm' (hgood a m' rfl) hshort.2
      exact ⟨List.forall_mem_append.mpr ⟨hseen, hmore⟩, hrest⟩
  · intro hshort
    obtain ⟨hseen, hm', -⟩ := h hshort
    exact ⟨hseen, hm', nofun⟩
  · intro hshort
    obtain ⟨hseen, hm', -⟩ := h hshort
    exact ⟨hseen, hm', nofun⟩

/-- A value that is entered is short, or the record would hold one that is not. -/
theorem enter (hm : m.Ranged) {found : Option Value} (h : RangedAny found) :
    Bounded m (fun _ => ∀ v ∈ found, v.Short) (Traced.enter found) := by
  intro hshort
  refine ⟨List.forall_mem_singleton.mpr ⟨h, hm⟩, hm, ?_⟩
  rintro _ _ ⟨⟩
  exact List.forall_mem_singleton.mp hshort

/-- What a step has found has been entered, so it may be used as an operand. -/
theorem noting {e : Traced (Option Value)}
    (h : Bounded m RangedAny e) : Bounded m EnteredAny (Traced.noting e) := by
  apply h.bind
  intro found m' hm' hranged
  apply (enter hm' hranged).bind
  intro _ m'' hm'' hshort
  exact .pure hm'' fun v hv => ⟨hranged v hv, hshort v hv⟩

theorem asResult {e : Traced Value} (h : Bounded m Value.Ranged e) :
    Bounded m RangedAny (some <$> e) := by
  apply h.bind
  intro v m' hm' hv
  exact .pure hm' (rangedAny_some hv)

end Bounded

theorem bindName_bounded (hm : m.Ranged) (scope : ScopeId) (name : String) {v : Value}
    (hv : v.Ranged) : Bounded m (fun _ => True) (bindName scope name v) := by
  have hbind : Bounded m (fun _ => True) (lift (Eval.bindName scope name v)) :=
    .lift (hm.bind scope name hv) fun _ _ _ => trivial
  apply hbind.bind
  intro _ m' hm' _ hshort
  obtain ⟨hseen, hm'', -⟩ := Bounded.enter hm' (rangedAny_some hv) hshort
  exact ⟨hseen, hm'', fun _ _ _ => trivial⟩

theorem ident_bounded (hm : m.Ranged) (scope : ScopeId) (name : String) :
    Bounded m Value.Ranged (lift (Eval.ident scope name)) := by
  have hrun : Eval.ident scope name m = .done (((m.heap.get? scope name).or
      ((Builtin.ofName? name).map .builtin)).getD (.error (.notFound name))) m := by
    simp only [Eval.ident, Eval.lookup, Bind.bind, Eval.bind]
    cases m.heap.get? scope name with
    | some v => rfl
    | none => cases Builtin.ofName? name <;> rfl
  apply Bounded.lift
  · rw [hrun]
    exact hm
  · rw [hrun]
    rintro _ _ ⟨⟩
    cases hfound : m.heap.get? scope name with
    | some v => exact hm v (Heap.stores_of_get? hfound)
    | none =>
        cases Builtin.ofName? name with
        | some f => exact .of_parts trivial rfl
        | none => exact Value.ranged_error _

theorem newArray_bounded (hm : m.Ranged) {vs : List Value} (h : ∀ v ∈ vs, v.Ranged) :
    Bounded m Value.Ranged (lift (Eval.newArray vs)) := by
  apply Bounded.lift
  · exact hm
  rintro _ _ ⟨⟩
  exact .intro trivial h

theorem newHash_bounded (hm : m.Ranged) {found : List (Key × Value)}
    (h : ∀ pair ∈ found, pair.1.Ranged ∧ pair.2.Ranged) :
    Bounded m Value.Ranged (lift (Eval.newHash found)) := by
  apply Bounded.lift
  · exact hm
  rintro _ _ ⟨⟩
  exact .hash (fun pair hpair => (h pair hpair).1) fun pair hpair => (h pair hpair).2

theorem newReturned_bounded (hm : m.Ranged) {v : Value} (h : v.Ranged) :
    Bounded m Value.Ranged (lift (Eval.newReturned v)) := by
  apply Bounded.lift
  · exact hm
  rintro _ _ ⟨⟩
  exact .returned trivial h

/-- A closure holds the literals of its body. -/
theorem function_bounded (hm : m.Ranged) (scope : ScopeId) (parameters : List Ident)
    {body : Node} (h : body.Ranged) :
    Bounded m Value.Ranged (lift (Eval.function scope parameters body)) := by
  apply Bounded.lift
  · exact hm
  rintro _ _ ⟨⟩
  exact .of_parts h rfl

/-- The one new integer is a length, and its array or text has been entered and is short. -/
theorem builtin_bounded (hm : m.Ranged) (f : Builtin) {arguments : List Value}
    (h : ∀ v ∈ arguments, Entered v) :
    Bounded m Value.Ranged (lift (f.apply arguments)) := by
  have hresult {v : Value} {m' : Machine} (hrun : f.apply arguments m = .done v m') :=
    Builtin.ranged_of_apply (fun v hv => (h v hv).1) (fun v hv => (h v hv).2) hrun
  obtain ⟨v, m', hrun, -⟩ := f.gives_apply arguments m
  apply Bounded.lift
  · rw [hrun]
    intro u
    rw [Outcome.machine, (hresult hrun).2]
    exact hm u
  · exact fun _ _ hdone => (hresult hdone).1

/-- A step that keeps integers in range where the literals of the tree are. -/
def Steady (step : Step) : Prop :=
  ∀ node m, node.Ranged → m.Ranged → Bounded m EnteredAny (step node)

section Rules

variable {step : Step} (hstep : Steady step) (hm : m.Ranged)

include hstep hm

theorem value_bounded {node : Node} (hnode : node.Ranged) :
    Bounded m Entered (value step node) := by
  apply (hstep node m hnode hm).bind
  intro found m' hm' hfound
  cases found with
  | some v => exact .pure hm' (hfound v rfl)
  | none => exact .lift hm' nofun

theorem withValue_bounded {node : Node} (hnode : node.Ranged)
    {next : Value → Traced (Option Value)}
    (hnext : ∀ v m', m'.Ranged → Entered v →
      Bounded m' RangedAny (next v)) :
    Bounded m RangedAny (withValue step node next) := by
  apply (value_bounded hstep hm hnode).bind
  intro v m' hm' hv
  split
  · exact .pure hm' (rangedAny_some hv.1)
  · exact hnext v m' hm' hv

theorem statements_bounded {nodes : List Node} (hnodes : ∀ node ∈ nodes, node.Ranged)
    {result : Option Value} (hresult : RangedAny result) :
    Bounded m RangedAny (statements step nodes result) := by
  induction nodes generalizing m result with
  | nil => exact .pure hm hresult
  | cons node nodes ih =>
      rw [List.forall_mem_cons] at hnodes
      apply (hstep node m hnodes.1 hm).bind
      intro found m' hm' hfound
      have hranged : RangedAny found := fun v hv => (hfound v hv).1
      cases found with
      | none => exact ih hm' hnodes.2 hranged
      | some v =>
          simp only
          split
          · exact .pure hm' hranged
          · exact ih hm' hnodes.2 hranged

theorem branch_bounded {block : Node} (hblock : block.Ranged) :
    Bounded m RangedAny (branch step block) := by
  have hnodes : ∀ node ∈ block.statements, node.Ranged :=
    fun _ hnode => hblock.child (Node.mem_children_of_statements hnode).1
  apply (statements_bounded hstep hm hnodes rangedAny_none).bind
  intro result m' hm' hresult
  exact .pure hm' (rangedAny_some (.getD hresult))

/-- Every argument has been entered when its node was evaluated. -/
theorem values_bounded {nodes : List Node} (hnodes : ∀ node ∈ nodes, node.Ranged)
    {found : List Value} (hfound : ∀ v ∈ found, Entered v) :
    Bounded m (fun result => ∀ vs, result = .ok vs → ∀ v ∈ vs, Entered v)
      (values step nodes found) := by
  induction nodes generalizing m found with
  | nil =>
      apply Bounded.pure hm
      rintro _ ⟨⟩ v hv
      exact hfound v (List.mem_reverse.mp hv)
  | cons node nodes ih =>
      rw [List.forall_mem_cons] at hnodes
      apply (value_bounded hstep hm hnodes.1).bind
      intro v m' hm' hv
      split
      · exact .pure hm' nofun
      · exact ih hm' hnodes.2 (List.forall_mem_cons.mpr ⟨hv, hfound⟩)

theorem pairs_bounded {nodes : List (Node × Node)}
    (hnodes : ∀ pair ∈ nodes, pair.1.Ranged ∧ pair.2.Ranged) {found : List (Key × Value)}
    (hfound : ∀ pair ∈ found, pair.1.Ranged ∧ pair.2.Ranged) :
    Bounded m (fun result => ∀ entries, result = .ok entries →
      ∀ pair ∈ entries, pair.1.Ranged ∧ pair.2.Ranged) (pairs step nodes found) := by
  induction nodes generalizing m found with
  | nil =>
      apply Bounded.pure hm
      rintro _ ⟨⟩
      exact hfound
  | cons pair nodes ih =>
      rw [List.forall_mem_cons] at hnodes
      apply (value_bounded hstep hm hnodes.1.1).bind
      intro key m₁ hm₁ hkey
      split
      · exact .pure hm₁ nofun
      split
      · exact .pure hm₁ nofun
      next k hk =>
        apply (value_bounded hstep hm₁ hnodes.1.2).bind
        intro v m₂ hm₂ hv
        split
        · exact .pure hm₂ nofun
        · apply ih hm₂ hnodes.2
          intro entry hentry
          rcases Value.mem_insertPair hentry with rfl | hold
          · exact ⟨hkey.1.key hk, hv.1⟩
          · exact hfound entry hold

end Rules

theorem bindAll_bounded (hm : m.Ranged) (scope : ScopeId) (names : List String)
    {vs : List Value} (h : ∀ v ∈ vs, Entered v) :
    Bounded m (fun _ => True) (bindAll scope names vs) := by
  induction names generalizing m vs with
  | nil => exact .pure hm trivial
  | cons name names ih =>
      cases vs with
      | nil => exact .pure hm trivial
      | cons v vs =>
          rw [List.forall_mem_cons] at h
          apply (bindName_bounded hm scope name h.1.1).bind
          intro _ m' hm' _
          exact ih hm' h.2

/-- The body of a function that is in range has literals in range. -/
theorem apply_bounded {stepIn : ScopeId → Step} (hstep : ∀ scope, Steady (stepIn scope))
    (hm : m.Ranged) {callee : Value} (hcallee : callee.Ranged) {arguments : List Value}
    (harguments : ∀ v ∈ arguments, Entered v) :
    Bounded m Value.Ranged (apply stepIn callee arguments) := by
  cases callee with
  | function id parameters body captured =>
      have hbody : body.Ranged := hcallee.here
      have hnodes : ∀ node ∈ body.statements, node.Ranged :=
        fun _ hnode => hbody.child (Node.mem_children_of_statements hnode).1
      simp only [apply]
      split
      · exact .pure hm (Value.ranged_error _)
      · have hnote : Bounded m (fun _ => True) (lift (Eval.note
            (.applying (.function id parameters body captured) arguments.length))) :=
          .lift hm fun _ _ _ => trivial
        apply hnote.bind
        intro _ m₁ hm₁ _
        have hscope : Bounded m₁ (fun _ => True) (lift (Eval.newScope (some captured))) :=
          .lift (hm₁.enclose _) fun _ _ _ => trivial
        apply hscope.bind
        intro scope m₂ hm₂ _
        apply (bindAll_bounded hm₂ scope parameters harguments).bind
        intro _ m₃ hm₃ _
        apply (statements_bounded (hstep scope) hm₃ hnodes rangedAny_none).bind
        intro result m₄ hm₄ hresult
        exact .pure hm₄ (Value.Every.unwrap (Value.Ranged.getD hresult))
  | builtin f => exact builtin_bounded hm f harguments
  | _ => exact .pure hm (Value.ranged_error _)

/-- The rules one by one, given steps that keep integers in range. -/
theorem rule_bounded {stepIn : ScopeId → Step} (hstepIn : ∀ scope, Steady (stepIn scope))
    (scope : ScopeId) {node : Node} (hnode : node.Ranged) (hm : m.Ranged) :
    Bounded m RangedAny (rule stepIn scope node) := by
  have hstep := hstepIn scope
  have hgives {m' : Machine} (hm' : m'.Ranged) {v : Value} (h : v.Ranged) :
      Bounded m' RangedAny (Pure.pure (some v)) := .pure hm' (rangedAny_some h)
  cases node with
  | bare t => exact .lift hm nofun
  | program nodes =>
      apply (statements_bounded hstep hm (fun _ => hnode.child) rangedAny_none).bind
      intro result m' hm' hresult
      apply Bounded.pure hm'
      intro v hv
      obtain ⟨u, hu, rfl⟩ := Option.map_eq_some_iff.mp hv
      exact Value.Every.unwrap (hresult u hu)
  | block t nodes =>
      exact statements_bounded hstep hm (fun _ => hnode.child) rangedAny_none
  | binding t name valueNode =>
      apply withValue_bounded hstep hm (hnode.child (by simp [Node.children]))
      intro v m' hm' hv
      apply (bindName_bounded hm' scope name.name hv.1).bind
      intro _ m'' hm'' _
      exact .pure hm'' nofun
  | ret t found =>
      cases found with
      | none => exact (newReturned_bounded hm Value.ranged_null).asResult
      | some valueNode =>
          apply withValue_bounded hstep hm (hnode.child (by simp [Node.children]))
          intro v m' hm' hv
          exact (newReturned_bounded hm' hv.1).asResult
  | expression t valueNode =>
      apply (value_bounded hstep hm (hnode.child (by simp [Node.children]))).bind
      intro v m' hm' hv
      exact hgives hm' hv.1
  | ident id => exact (ident_bounded hm scope id.name).asResult
  | integer t n => exact hgives hm (.of_parts (hnode.here n rfl) rfl)
  | boolean t b => exact hgives hm (.of_parts trivial rfl)
  | text t s => exact hgives hm (.of_parts trivial rfl)
  | array t nodes =>
      apply (values_bounded hstep hm (fun _ => hnode.child) (List.forall_mem_nil _)).bind
      intro found m' hm' hfound
      cases found with
      | ok elements =>
          exact (newArray_bounded hm' fun v hv => (hfound elements rfl v hv).1).asResult
      | error reason => exact hgives hm' (Value.ranged_error _)
  | hash t nodes =>
      have hpairs : ∀ pair ∈ nodes, pair.1.Ranged ∧ pair.2.Ranged := by
        intro pair hpair
        constructor
        · exact hnode.child (List.mem_flatMap.mpr ⟨pair, hpair, by simp⟩)
        · exact hnode.child (List.mem_flatMap.mpr ⟨pair, hpair, by simp⟩)
      apply (pairs_bounded hstep hm hpairs (List.forall_mem_nil _)).bind
      intro found m' hm' hfound
      cases found with
      | ok entries => exact (newHash_bounded hm' (hfound entries rfl)).asResult
      | error reason => exact hgives hm' (Value.ranged_error _)
  | unary t operator operand =>
      apply withValue_bounded hstep hm (hnode.child (by simp [Node.children]))
      intro v m' hm' hv
      exact hgives hm' (hv.1.unary operator)
  | binary t left operator right =>
      apply withValue_bounded hstep hm (hnode.child (by simp [Node.children]))
      intro l m₁ hm₁ _
      apply withValue_bounded hstep hm₁ (hnode.child (by simp [Node.children]))
      intro r m₂ hm₂ _
      exact hgives hm₂ (Value.ranged_binary l operator r)
  | conditional t condition consequence alternative =>
      apply withValue_bounded hstep hm (hnode.child (by simp [Node.children]))
      intro v m' hm' _
      split
      · exact branch_bounded hstep hm' (hnode.child (by simp [Node.children]))
      · cases alternative with
        | some block => exact branch_bounded hstep hm' (hnode.child (by simp [Node.children]))
        | none => exact hgives hm' Value.ranged_null
  | function t parameters body =>
      have hbody : body.Ranged := hnode.child (by simp [Node.children])
      exact (function_bounded hm scope parameters hbody).asResult
  | call t callee nodes =>
      have hnodes : ∀ node ∈ nodes, node.Ranged :=
        fun _ h => hnode.child (by simp [Node.children, h])
      apply withValue_bounded hstep hm (hnode.child (by simp [Node.children]))
      intro f m₁ hm₁ hf
      apply (values_bounded hstep hm₁ hnodes (List.forall_mem_nil _)).bind
      intro found m₂ hm₂ hfound
      cases found with
      | ok arguments => exact (apply_bounded hstepIn hm₂ hf.1 (hfound arguments rfl)).asResult
      | error reason => exact hgives hm₂ (Value.ranged_error _)
  | index t collection place =>
      apply withValue_bounded hstep hm (hnode.child (by simp [Node.children]))
      intro c m₁ hm₁ hc
      apply withValue_bounded hstep hm₁ (hnode.child (by simp [Node.children]))
      intro i m₂ hm₂ _
      exact hgives hm₂ (hc.1.index i)

/-- Evaluation keeps integers in range. -/
theorem evaluate_bounded (levels : Nat) (scope : ScopeId) : Steady (evaluate levels scope) := by
  induction levels generalizing scope with
  | zero => exact fun node m _ hm => .lift hm nofun
  | succ levels ih => exact fun node m hnode hm => .noting (rule_bounded ih scope hnode hm)

/-- The records and outcomes of programs that are evaluated one after the other in a scope, each
at most as deep as it says. -/
def records (scope : ScopeId) :
    List (Nat × Node) → Machine → List (List Moment × Outcome (Option Value))
  | [], _ => []
  | (levels, program) :: programs, m =>
    let record := evaluate levels scope program m
    record :: records scope programs record.2.machine

/-- Without the records these are the outcomes of the evaluator itself. -/
theorem outcomes_records (scope : ScopeId) (programs : List (Nat × Node)) (m : Machine) :
    (records scope programs m).map Prod.snd = outcomes Scriptlet.evaluate scope programs m := by
  induction programs generalizing m with
  | nil => rfl
  | cons entry programs ih =>
      obtain ⟨levels, program⟩ := entry
      have hfirst : (evaluate levels scope program m).2 =
          Scriptlet.evaluate levels scope program m :=
        congrFun (erase_evaluate levels scope program) m
      rw [records, outcomes, List.map_cons, ih, hfirst]

/-- One program after the other finds a machine in which all integers are in range. -/
theorem records_ranged (scope : ScopeId) {programs : List (Nat × Node)}
    (hranged : ∀ entry ∈ programs, entry.2.Ranged) {m : Machine} (hm : m.Ranged)
    (hshort : ∀ record ∈ records scope programs m, ∀ moment ∈ record.1, moment.Short) :
    ∀ record ∈ records scope programs m,
      (∀ moment ∈ record.1, moment.Ranged) ∧ record.2.machine.Ranged := by
  induction programs generalizing m with
  | nil => exact nofun
  | cons entry programs ih =>
      obtain ⟨levels, program⟩ := entry
      rw [List.forall_mem_cons] at hranged
      rw [records, List.forall_mem_cons] at hshort ⊢
      obtain ⟨hseen, hafter, -⟩ :=
        evaluate_bounded levels scope program m hranged.1 hm hshort.1
      exact ⟨⟨hseen, hafter⟩, ih hranged.2 hafter hshort.2⟩

/-- Programs that were parsed from texts, with or without diagnostics, and are evaluated one after
the other in an empty scope: as long as every text and array that comes up is no longer than the
largest integer, every integer that comes up or is bound at any moment lies in the 64-bit range.
The record in which it does is that of the evaluation of the language. -/
theorem integers_stay_in_range (programs : List (Nat × Node))
    (hparsed : ∀ entry ∈ programs, ∃ nesting aliases text diagnostics,
      Reading.ofText nesting aliases text = .parsed entry.2 diagnostics)
    (hshort : ∀ record ∈ records Machine.withScope.1 programs Machine.withScope.2,
      ∀ moment ∈ record.1, moment.Short) :
    (records Machine.withScope.1 programs Machine.withScope.2).map Prod.snd =
        outcomes Scriptlet.evaluate Machine.withScope.1 programs Machine.withScope.2 ∧
      ∀ record ∈ records Machine.withScope.1 programs Machine.withScope.2,
        (∀ moment ∈ record.1, moment.Ranged) ∧ record.2.machine.Ranged := by
  have hranged : ∀ entry ∈ programs, entry.2.Ranged := by
    intro entry hentry
    obtain ⟨nesting, aliases, text, diagnostics, hreading⟩ := hparsed entry hentry
    exact Reading.ranged hreading
  exact ⟨outcomes_records _ _ _, records_ranged _ hranged Machine.ranged_withScope hshort⟩

/-- `let n = len([7, 8]);` -/
def measuring : Node :=
  .program [.binding ⟨.keyword .letWord, "let", 1, 1⟩ ⟨⟨.ident, "n", 1, 5⟩, "n"⟩
    (.call ⟨.symbol .leftParen, "(", 1, 12⟩ (.ident ⟨⟨.ident, "len", 1, 9⟩, "len"⟩)
      [.array ⟨.symbol .leftBracket, "[", 1, 13⟩
        [.integer ⟨.number, "7", 1, 14⟩ 7, .integer ⟨.number, "8", 1, 17⟩ 8]])]

/-- `-n * 9223372036854775807` -/
def overflowing : Node :=
  .program [.expression ⟨.symbol .minus, "-", 1, 1⟩
    (.binary ⟨.symbol .times, "*", 1, 4⟩
      (.unary ⟨.symbol .minus, "-", 1, 1⟩ "-" (.ident ⟨⟨.ident, "n", 1, 2⟩, "n"⟩)) "*"
      (.integer ⟨.number, "9223372036854775807", 1, 6⟩ 9223372036854775807))]

/-- A length is bound, and a product of it is too large and wraps. -/
theorem integers_stay_in_range_overflowing :
    Reading.ofText 3 .empty "let n = len([7, 8]);" = .parsed measuring [] ∧
      Reading.ofText 3 .empty "-n * 9223372036854775807" = .parsed overflowing [] ∧
      ∀ record ∈ records Machine.withScope.1 [(9, measuring), (9, overflowing)]
          Machine.withScope.2,
        (∀ moment ∈ record.1, moment.Ranged) ∧ record.2.machine.Ranged := by
  have hfirst : Reading.ofText 3 .empty "let n = len([7, 8]);" = .parsed measuring [] := rfl
  have hsecond : Reading.ofText 3 .empty "-n * 9223372036854775807" =
      .parsed overflowing [] := rfl
  let programs : List (Nat × Node) := [(9, measuring), (9, overflowing)]
  have hparsed : ∀ entry ∈ programs, ∃ nesting aliases text diagnostics,
      Reading.ofText nesting aliases text = .parsed entry.2 diagnostics := by
    rw [List.forall_mem_cons, List.forall_mem_singleton]
    exact ⟨⟨3, _, _, _, hfirst⟩, ⟨3, _, _, _, hsecond⟩⟩
  have hflat : ∀ record ∈ records Machine.withScope.1 programs Machine.withScope.2,
      ∀ moment ∈ record.1, ∀ v ∈ moment.found,
        (∀ n ∈ v.length?, n ≤ 2) ∧ ∀ u ∈ v.parts, u.number? = none ∧ u.length? = none := by
    decide +kernel
  have hshort : ∀ record ∈ records Machine.withScope.1 programs Machine.withScope.2,
      ∀ moment ∈ record.1, moment.Short := by
    intro record hrecord moment hmoment v hv
    obtain ⟨hlength, hparts⟩ := hflat record hrecord moment hmoment v hv
    constructor
    · intro n hn
      have hmaximum : (2 : Int) ≤ Int64.maximum := by decide
      have hsmall := hlength n hn
      omega
    · intro u hu
      obtain ⟨hnumber, hnone⟩ := hparts u hu
      constructor
      · simp [hnone]
      · simp [Value.parts_of_number? hnumber]
  exact ⟨hfirst, hsecond, (integers_stay_in_range programs hparsed hshort).2⟩

end Traced

end Scriptlet
