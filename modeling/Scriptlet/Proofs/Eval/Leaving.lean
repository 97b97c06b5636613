import Scriptlet.Proofs.Eval.Exiting
import Scriptlet.Proofs.Eval.Regular
import Scriptlet.Proofs.Tree.Discipline

/-!
Return wrappers as signs of leaving. In disciplined trees of the form that the grammar
gives, no rule works on the value of a node in which a return stands. So where evaluation
that leaves at once is left, the other goes on with a wrapper that comes up as the result
of a statement; there it ends the statements around it as leaving would, up to the call or
the program that takes it off.
-/

namespace Scriptlet

/-- The law of disciplined trees. -/
def Law.disciplined : Law where
  tree node := (∃ role, node.Formed role) ∧ node.Disciplined
  body block := block.Formed .block ∧ block.Disciplined
  counted := False
  child h _ hchild := by
    obtain ⟨⟨role, hformed⟩, hdisciplined⟩ := h
    exact ⟨hformed.child hchild, hdisciplined.child hchild⟩
  literal h := by
    obtain ⟨⟨role, hformed⟩, hdisciplined⟩ := h
    cases hformed with
    | function _ _ hbody => exact ⟨hbody, hdisciplined.child (by simp [Node.children])⟩
  statement h hstatement := by
    obtain ⟨hformed, hdisciplined⟩ := h
    obtain ⟨hchild, _⟩ := Node.mem_children_of_statements hstatement
    exact ⟨hformed.child hchild, hdisciplined.child hchild⟩

variable {α β γ δ : Type}

/-- An outcome as evaluation with wrappers shows it. Where it was left, the result carries
the sign of that. -/
def Exit.Shows (code : α → β) (sign : Plain → β → Prop) : Exit α → Outcome β → Prop
  | .done a m, shown => shown = .done (code a) m.machine
  | .left d m, shown => ∃ b, sign d b ∧ shown = .done b m.machine
  | .broken breach m, shown => shown = .broken breach m.machine
  | .tooDeep m, shown => shown = .tooDeep m.machine

/-- From the machine, evaluation with wrappers shows what the other comes to. -/
def Carries (code : α → β) (sign : Plain → β → Prop) (m : PlainMachine) (e : Eval β)
    (r : Exiting α) : Prop :=
  (r m).Shows code sign (e m.machine)

/-- It is never left. -/
def Stays (_ : Plain) (_ : β) : Prop :=
  False

/-- Leaving has a cause, and its sign is a wrapper. -/
def LeavesIf (cause : Prop) (d : Plain) (found : Option Value) : Prop :=
  cause ∧ ∃ id, found = some (.returned id d.value)

open Eval

namespace Carries

variable {code : α → β} {sign sign' : Plain → β → Prop} {m : PlainMachine}
  {e : Eval β} {r : Exiting α}

theorem pure {a : α} {b : β} (h : code a = b) :
    Carries code sign m (Pure.pure b) (Pure.pure a) := by
  rw [← h]
  exact rfl

theorem breakOff (breach : Breach) :
    Carries code sign m (Eval.breakOff breach) (Exiting.breakOff breach) :=
  rfl

theorem mono (h : Carries code sign m e r) (hle : ∀ d b, sign d b → sign' d b) :
    Carries code sign' m e r := by
  unfold Carries at h ⊢
  cases hrun : r m with
  | left d m' =>
      rw [hrun] at h
      obtain ⟨b, hsign, hshown⟩ := h
      exact ⟨b, hle d b hsign, hshown⟩
  | _ =>
      rw [hrun] at h
      exact h

theorem stays (h : Carries code Stays m e r) : Carries code sign m e r :=
  h.mono fun _ _ hno => hno.elim

/-- One evaluation behind another. It goes on where the first is done, and where the first
is left it does nothing but hand the sign on. -/
theorem bind_of_done {code' : γ → δ} {sign' : Plain → δ → Prop} {next : β → Eval δ}
    {next' : α → Exiting γ} (h : Carries code sign m e r)
    (hsign : ∀ d b, sign d b → ∃ b', sign' d b' ∧ next b = Pure.pure b')
    (hnext : ∀ a m', e m.machine = .done (code a) m'.machine →
      Carries code' sign' m' (next (code a)) (next' a)) :
    Carries code' sign' m (e >>= next) (r >>= next') := by
  unfold Carries at h
  show (Exiting.bind r next' m).Shows code' sign' (Eval.bind e next m.machine)
  unfold Exiting.bind Eval.bind
  cases hrun : r m with
  | done a m' =>
      rw [hrun] at h
      have hshown : e m.machine = .done (code a) m'.machine := h
      rw [hshown]
      exact hnext a m' hshown
  | left d m' =>
      rw [hrun] at h
      obtain ⟨b, hb, hshown⟩ := h
      obtain ⟨b', hb', hpure⟩ := hsign d b hb
      rw [hshown]
      exact ⟨b', hb', congrFun hpure m'.machine⟩
  | broken | tooDeep =>
      simp only [hrun, Exit.Shows] at h
      rw [h]
      exact rfl

/-- The same with what the first keeps. -/
theorem bind {law : Law} {good : Machine → β → Prop} {code' : γ → δ}
    {sign' : Plain → δ → Prop} {next : β → Eval δ} {next' : α → Exiting γ}
    (h : Carries code sign m e r) (hkeeps : Keeps law m.machine good e)
    (hsign : ∀ d b, sign d b → ∃ b', sign' d b' ∧ next b = Pure.pure b')
    (hnext : ∀ a m', m.machine.Grown m'.machine → m'.machine.Regular law →
      good m'.machine (code a) → Carries code' sign' m' (next (code a)) (next' a)) :
    Carries code' sign' m (e >>= next) (r >>= next') := by
  apply h.bind_of_done hsign
  intro a m' hdone
  obtain ⟨hgrown, hregular, hgood⟩ := hkeeps
  rw [hdone] at hgrown hregular
  exact hnext a m' hgrown hregular (hgood _ _ hdone)

/-- One evaluation behind another that is never left. -/
theorem andThen {law : Law} {good : Machine → β → Prop} {code' : γ → δ}
    {sign' : Plain → δ → Prop} {next : β → Eval δ} {next' : α → Exiting γ}
    (h : Carries code Stays m e r) (hkeeps : Keeps law m.machine good e)
    (hnext : ∀ a m', m.machine.Grown m'.machine → m'.machine.Regular law →
      good m'.machine (code a) → Carries code' sign' m' (next (code a)) (next' a)) :
    Carries code' sign' m (e >>= next) (r >>= next') :=
  h.bind hkeeps (fun _ _ hno => hno.elim) hnext

theorem asResult {e : Eval Value} {r : Exiting Plain} (h : Carries Plain.value Stays m e r)
    {sign : Plain → Option Value → Prop} :
    Carries (Option.map Plain.value) sign m (some <$> e) (some <$> r) := by
  apply h.bind_of_done
  · exact fun _ _ hno => hno.elim
  · intro d m' _
    exact .pure rfl

end Carries

section Leaves

variable {m : PlainMachine}

theorem newArray_carries (elements : List Plain) :
    Carries Plain.value Stays m (newArray (elements.map Plain.value))
      (Exiting.newArray elements) :=
  rfl

theorem newHash_carries (entries : PlainPairs) :
    Carries Plain.value Stays m (newHash entries.pairs) (Exiting.newHash entries) :=
  rfl

theorem function_carries (scope : ScopeId) (parameters : List Ident) (body : Node) :
    Carries Plain.value Stays m (Eval.function scope parameters body)
      (Exiting.function scope parameters body) :=
  rfl

/-- Where the one makes a wrapper, the other leaves. -/
theorem leave_carries (d : Plain) :
    Carries (Option.map Plain.value) (LeavesIf True) m (some <$> newReturned d.value)
      (Exiting.leave d) :=
  ⟨some (.returned m.machine.nextId d.value), ⟨trivial, _, rfl⟩, rfl⟩

theorem lookup_carries (scope : ScopeId) (name : String) :
    Carries (Option.map Plain.value) Stays m (lookup scope name)
      (Exiting.lookup scope name) := by
  unfold Carries Exiting.lookup lookup
  split
  next v hv => exact congrArg (Outcome.done · m.machine) hv
  next hv => exact congrArg (Outcome.done · m.machine) hv

theorem ident_carries (scope : ScopeId) (name : String) :
    Carries Plain.value Stays m (Eval.ident scope name) (Exiting.ident scope name) := by
  apply (lookup_carries scope name).bind_of_done
  · exact fun _ _ hno => hno.elim
  · intro found m' _
    cases found with
    | some d => exact .pure rfl
    | none =>
        simp only [Option.map_none]
        cases Builtin.ofName? name with
        | some f => exact .pure rfl
        | none => exact .pure rfl

theorem callBuiltin_carries (f : Builtin) (arguments : List Plain) :
    Carries Plain.value Stays m (f.apply (arguments.map Plain.value))
      (Exiting.callBuiltin f arguments) := by
  unfold Carries Exiting.callBuiltin
  split
  next v after hrun => exact hrun
  next hrun => exact (Builtin.Gives.not_broken (f.gives_apply _) hrun).elim
  next hrun => exact (Builtin.Gives.not_tooDeep (f.gives_apply _) hrun).elim

theorem note_carries (n : Note) : Carries id Stays m (note n) (Exiting.note n) :=
  rfl

theorem newScope_carries (outer : Option ScopeId) :
    Carries id Stays m (newScope outer) (Exiting.newScope outer) :=
  rfl

theorem bindName_carries (scope : ScopeId) (name : String) (d : Plain) :
    Carries id Stays m (bindName scope name d.value) (Exiting.bindName scope name d) :=
  rfl

theorem bindAll_carries (scope : ScopeId) (names : List String) (ds : List Plain) :
    Carries id Stays m (bindAll scope names (ds.map Plain.value))
      (Exiting.bindAll scope names ds) := by
  induction names generalizing ds m with
  | nil => exact .pure rfl
  | cons name names ih =>
      cases ds with
      | nil => exact .pure rfl
      | cons d ds => exact ih ds

end Leaves

/-- Where no value is a wrapper only an error ends statements. -/
theorem Plain.isExit_eq (d : Plain) : d.value.isExit = d.value.isError := by
  obtain ⟨v, hunwrapped⟩ := d
  cases v with
  | returned id value => exact absurd rfl hunwrapped.here
  | _ => rfl

theorem Plain.unwrap_eq (d : Plain) : d.value.unwrap = d.value := by
  obtain ⟨v, hunwrapped⟩ := d
  cases v with
  | returned id value => exact absurd rfl hunwrapped.here
  | _ => rfl

theorem uncounted {p : Prop} : Law.disciplined.counted → p :=
  False.elim

/-- One step shows what the other comes to, wherever the law of disciplined trees is
kept. -/
def Agrees (step : Eval.Step) (step' : Exiting.Step) : Prop :=
  ∀ node m, Law.disciplined.tree node → m.machine.Regular .disciplined →
    Carries (Option.map Plain.value) (LeavesIf node.Returns) m (step node) (step' node)

section Rules

variable {scope : ScopeId} {step : Eval.Step} {step' : Exiting.Step}
  (hsteady : Steady .disciplined scope step) (hstep : Agrees step step') {m : PlainMachine}
  (hm : m.machine.Regular .disciplined)

include hstep hm in
/-- An operand of a disciplined tree holds no return, so its value is no wrapper. -/
theorem value_carries {node : Node} (hnode : Law.disciplined.tree node) :
    Carries Plain.value (fun d v => LeavesIf node.Returns d (some v)) m (value step node)
      (Exiting.value step' node) := by
  apply (hstep node m hnode hm).bind_of_done
  · rintro d _ ⟨hreturns, id, rfl⟩
    exact ⟨.returned id d.value, ⟨hreturns, id, rfl⟩, rfl⟩
  · intro found m' _
    cases found with
    | some d => exact .pure rfl
    | none => exact .breakOff _

include hstep hm in
/-- What is worked on is never left. -/
theorem operand_carries {node : Node} (hnode : Law.disciplined.tree node)
    (hstays : ¬ node.Returns) :
    Carries Plain.value Stays m (value step node) (Exiting.value step' node) :=
  (value_carries hstep hm hnode).mono fun _ _ hleaves => hstays hleaves.1

include hsteady hstep hm

theorem withValue_carries {node : Node} (hnode : Law.disciplined.tree node)
    (hstays : ¬ node.Returns) {sign : Plain → Option Value → Prop}
    {next : Value → Eval (Option Value)} {next' : Plain → Exiting (Option Plain)}
    (hnext : ∀ d m', m'.machine.Regular .disciplined → m'.machine.Has .disciplined d.value →
      Carries (Option.map Plain.value) sign m' (next d.value) (next' d)) :
    Carries (Option.map Plain.value) sign m (withValue step node next)
      (Exiting.withValue step' node next') := by
  apply (operand_carries hstep hm hnode hstays).andThen
    (value_keeps hsteady hm uncounted hnode)
  intro d m' _ hm' hd
  cases d.value.isError with
  | true => exact .pure rfl
  | false => exact hnext d m' hm' hd

/-- A wrapper that ends statements is handed outward, where the reference has left already. -/
theorem statements_carries {nodes : List Node}
    (hnodes : ∀ node ∈ nodes, Law.disciplined.tree node) (result : Option Plain) :
    Carries (Option.map Plain.value) (LeavesIf (∃ node ∈ nodes, node.Returns)) m
      (statements step nodes (result.map Plain.value))
      (Exiting.statements step' nodes result) := by
  induction nodes generalizing m result with
  | nil => exact .pure rfl
  | cons node nodes ih =>
      rw [List.forall_mem_cons] at hnodes
      have hlater {d : Plain} {found : Option Value}
          (h : LeavesIf (∃ node ∈ nodes, node.Returns) d found) :
          LeavesIf (∃ n ∈ node :: nodes, n.Returns) d found := by
        obtain ⟨⟨later, hlater, hreturns⟩, hfound⟩ := h
        exact ⟨⟨later, List.mem_cons_of_mem _ hlater, hreturns⟩, hfound⟩
      apply (hstep node m hnodes.1 hm).bind (hsteady node m.machine hnodes.1 hm uncounted)
      -- A wrapper ends the statements, as leaving does; of other values only errors do.
      · rintro d _ ⟨hreturns, id, rfl⟩
        exact ⟨_, ⟨⟨node, List.mem_cons_self, hreturns⟩, id, rfl⟩, rfl⟩
      · intro found m' _ hm' _
        cases found with
        | none => exact (ih hm' hnodes.2 none).mono fun _ _ => hlater
        | some d =>
            simp only [Option.map_some, d.isExit_eq]
            cases d.value.isError with
            | true => exact .pure rfl
            | false => exact (ih hm' hnodes.2 (some d)).mono fun _ _ => hlater

theorem branch_carries {block : Node}
    (hnodes : ∀ node ∈ block.statements, Law.disciplined.tree node) :
    Carries (Option.map Plain.value) (LeavesIf (∃ node ∈ block.statements, node.Returns)) m
      (branch step block) (Exiting.branch step' block) := by
  apply (statements_carries hsteady hstep hm hnodes none).bind_of_done
  · rintro d _ ⟨hreturns, id, rfl⟩
    exact ⟨_, ⟨hreturns, id, rfl⟩, rfl⟩
  · intro result m' _
    apply Carries.pure
    cases result <;> rfl

theorem values_carries {nodes : List Node}
    (hnodes : ∀ node ∈ nodes, Law.disciplined.tree node ∧ ¬ node.Returns)
    (found : List Plain) :
    Carries (Except.map (List.map Plain.value)) Stays m
      (values step nodes (found.map Plain.value)) (Exiting.values step' nodes found) := by
  induction nodes generalizing m found with
  | nil =>
      apply Carries.pure
      simp [Except.map]
  | cons node nodes ih =>
      rw [List.forall_mem_cons] at hnodes
      apply (operand_carries hstep hm hnodes.1.1 hnodes.1.2).andThen
        (value_keeps hsteady hm uncounted hnodes.1.1)
      intro d m' _ hm' _
      have hmore := ih hm' hnodes.2 (d :: found)
      obtain ⟨v, hunwrapped⟩ := d
      cases v with
      | error reason => exact .pure rfl
      | _ => exact hmore

theorem pairs_carries {nodes : List (Node × Node)}
    (hkeys : ∀ pair ∈ nodes, Law.disciplined.tree pair.1 ∧ ¬ pair.1.Returns)
    (hvalues : ∀ pair ∈ nodes, Law.disciplined.tree pair.2 ∧ ¬ pair.2.Returns)
    (found : PlainPairs) :
    Carries (Except.map PlainPairs.pairs) Stays m (pairs step nodes found.pairs)
      (Exiting.pairs step' nodes found) := by
  induction nodes generalizing m found with
  | nil => exact .pure rfl
  | cons pair nodes ih =>
      rw [List.forall_mem_cons] at hkeys hvalues
      apply (operand_carries hstep hm hkeys.1.1 hkeys.1.2).andThen
        (value_keeps hsteady hm uncounted hkeys.1.1)
      intro key m' _ hm' _
      obtain ⟨v, hunwrapped⟩ := key
      cases v with
      | error reason => exact .pure rfl
      | integer _ | boolean _ | text _ =>
          apply (operand_carries hstep hm' hvalues.1.1 hvalues.1.2).andThen
            (value_keeps hsteady hm' uncounted hvalues.1.1)
          intro d m'' _ hm'' _
          have hmore (k : Key) := ih hm'' hkeys.2 hvalues.2 (found.insert k d)
          obtain ⟨v, hunwrapped⟩ := d
          cases v with
          | error reason => exact .pure rfl
          | _ => exact hmore _
      | _ => exact .pure rfl

end Rules

/-- Where wrappers are taken off, what was left is caught. -/
theorem catching_carries {m : PlainMachine} {cause : Prop} {e : Eval (Option Value)}
    {r : Exiting (Option Plain)}
    (h : Carries (Option.map Plain.value) (LeavesIf cause) m e r) :
    Carries (Option.map Plain.value) Stays m (do return (← e).map Value.unwrap)
      (Exiting.catching r) := by
  have hunwrap (found : Option Plain) :
      (found.map Plain.value).map Value.unwrap = found.map Plain.value := by
    cases found with
    | none => rfl
    | some d => exact congrArg some d.unwrap_eq
  unfold Carries at h ⊢
  show (Exiting.catching r m).Shows _ _ (Eval.bind e _ m.machine)
  unfold Exiting.catching Eval.bind
  cases hrun : r m with
  | done found m' =>
      rw [hrun] at h
      have hshown : e m.machine = .done (found.map Plain.value) m'.machine := h
      rw [hshown]
      exact congrArg (Outcome.done · m'.machine) (hunwrap found)
  | left d m' =>
      rw [hrun] at h
      obtain ⟨_, ⟨_, id, rfl⟩, hshown⟩ := h
      rw [hshown]
      exact rfl
  | broken | tooDeep =>
      simp only [hrun, Exit.Shows] at h
      rw [h]
      exact rfl

/-- The same where a call has no value but null. -/
theorem result_carries {m : PlainMachine} {cause : Prop} {e : Eval (Option Value)}
    {r : Exiting (Option Plain)}
    (h : Carries (Option.map Plain.value) (LeavesIf cause) m e r) :
    Carries Plain.value Stays m (do return ((← e).getD .null).unwrap)
      (do return (← Exiting.catching r).getD .null) := by
  have hgetD : (do return ((← e).getD .null).unwrap : Eval Value) =
      (do return (← (do return (← e).map Value.unwrap : Eval (Option Value))).getD .null) := by
    funext m
    show Eval.bind e _ m = Eval.bind (Eval.bind e _) _ m
    unfold Eval.bind
    cases e m with
    | done found m' => cases found <;> rfl
    | _ => rfl
  rw [hgetD]
  apply (catching_carries h).bind_of_done
  · exact fun _ _ hno => hno.elim
  · intro found m' _
    apply Carries.pure
    cases found <;> rfl

/-- A call takes the wrapper off, where the reference catches what was left. -/
theorem apply_carries {stepIn : ScopeId → Eval.Step} {stepIn' : ScopeId → Exiting.Step}
    (hsteady : ∀ scope, Steady .disciplined scope (stepIn scope))
    (hstep : ∀ scope, Agrees (stepIn scope) (stepIn' scope)) {m : PlainMachine}
    (hm : m.machine.Regular .disciplined) (callee : Plain)
    (hcallee : m.machine.Has .disciplined callee.value) (arguments : List Plain)
    (harguments : HasAll .disciplined m.machine (arguments.map Plain.value)) :
    Carries Plain.value Stays m
      (Eval.apply stepIn callee.value (arguments.map Plain.value))
      (Exiting.apply stepIn' callee arguments) := by
  obtain ⟨v, hunwrapped⟩ := callee
  cases v with
  | function id parameters body captured =>
      have hbody := hcallee.here.body id parameters body captured rfl
      simp only [Eval.apply, Exiting.apply, List.length_map]
      split
      · exact .pure rfl
      · apply (note_carries _).andThen (note_keeps hm _)
        intro _ m₁ hgrown₁ hm₁ _
        apply (newScope_carries _).andThen (newScope_keeps hm₁ uncounted)
        intro scope m₂ hgrown₂ hm₂ _
        have harguments₂ : HasAll .disciplined m₂.machine (arguments.map Plain.value) :=
          fun v hv => (harguments v hv).mono (hgrown₁.trans hgrown₂)
        apply (bindAll_carries scope parameters arguments).andThen
          (bindAll_keeps hm₂ scope parameters harguments₂)
        intro _ m₃ _ hm₃ _
        have hstatements : ∀ node ∈ body.statements, Law.disciplined.tree node :=
          fun _ => Law.disciplined.statement hbody
        exact result_carries
          (statements_carries (hsteady scope) (hstep scope) hm₃ hstatements none)
  | builtin f => exact callBuiltin_carries f arguments
  | _ => exact .pure rfl

/-- Evaluation of a disciplined tree shows what evaluation that leaves at once comes to. -/
theorem evaluate_carries (levels : Nat) (scope : ScopeId) :
    Agrees (evaluate levels scope) (Exiting.evaluate levels scope) := by
  induction levels generalizing scope with
  | zero => exact fun node m _ _ => rfl
  | succ levels ih =>
      intro node m hnode hm
      have hsteady := evaluate_keeps .disciplined levels
      have hstep := ih scope
      have ⟨⟨role, hformed⟩, hdisciplined⟩ := hnode
      have hchild {child : Node} (hfunction : node.isFunction = false)
          (h : child ∈ node.children) : Law.disciplined.tree child :=
        Law.disciplined.child hnode hfunction h
      have hoperand {child : Node} (hfunction : node.isFunction = false)
          (h : child ∈ node.operands) : Law.disciplined.tree child ∧ ¬ child.Returns :=
        ⟨hchild hfunction (Node.operands_subset_children h),
          hformed.operand_not_returns hdisciplined h⟩
      -- The rules that work on a value cannot be left while they wait for it.
      have hworks {child : Node} (hfunction : node.isFunction = false)
          (h : child ∈ node.operands) {m : PlainMachine}
          (hm : m.machine.Regular .disciplined) {sign : Plain → Option Value → Prop}
          {next : Value → Eval (Option Value)} {next' : Plain → Exiting (Option Plain)}
          (hnext : ∀ d m', m'.machine.Regular .disciplined →
            m'.machine.Has .disciplined d.value →
            Carries (Option.map Plain.value) sign m' (next d.value) (next' d)) :
          Carries (Option.map Plain.value) sign m
            (withValue (evaluate levels scope) child next)
            (Exiting.withValue (Exiting.evaluate levels scope) child next') :=
        withValue_carries (hsteady scope) hstep hm (hoperand hfunction h).1
          (hoperand hfunction h).2 hnext
      cases node with
      | bare t => exact .breakOff _
      | program nodes =>
          apply Carries.stays
          exact catching_carries
            (statements_carries (hsteady scope) hstep hm (fun _ => hchild rfl) none)
      | block t nodes =>
          apply (statements_carries (hsteady scope) hstep hm (fun _ => hchild rfl) none).mono
          rintro d found ⟨⟨statement, hstatement, hreturns⟩, hfound⟩
          exact ⟨.inside rfl hstatement hreturns, hfound⟩
      | binding t name valueNode =>
          apply hworks rfl List.mem_cons_self hm
          intro d m' hm' hd
          apply (bindName_carries scope name.name d).andThen
            (bindName_keeps hm' scope name.name hd)
          intro _ m'' _ _ _
          exact .pure rfl
      | ret t found =>
          have hreturns : (Node.ret t found).Returns := .here rfl
          cases found with
          | none =>
              apply (leave_carries .null).mono
              exact fun _ _ hleaves => ⟨hreturns, hleaves.2⟩
          | some valueNode =>
              apply hworks rfl List.mem_cons_self hm
              intro d m' _ _
              apply (leave_carries d).mono
              exact fun _ _ hleaves => ⟨hreturns, hleaves.2⟩
      | expression t valueNode =>
          have hvalue : valueNode ∈ (Node.expression t valueNode).children :=
            List.mem_cons_self
          apply (value_carries hstep hm (hchild rfl hvalue)).bind_of_done
          · rintro d v ⟨hreturns, hfound⟩
            exact ⟨some v, ⟨.inside rfl hvalue hreturns, hfound⟩, rfl⟩
          · intro d m' _
            exact .pure rfl
      | ident id => exact (ident_carries scope id.name).asResult
      | integer t n => exact .pure rfl
      | boolean t b => exact .pure rfl
      | text t s => exact .pure rfl
      | array t nodes =>
          have hnodes : ∀ n ∈ nodes, Law.disciplined.tree n := fun _ => hchild rfl
          apply (values_carries (hsteady scope) hstep hm (fun _ => hoperand rfl) []).andThen
            (values_keeps (hsteady scope) hm uncounted hnodes hasAll_nil)
          intro found m' _ _ _
          cases found with
          | ok elements => exact (newArray_carries elements).asResult
          | error reason => exact .pure rfl
      | hash t nodes =>
          have hkeys : ∀ pair ∈ nodes, Law.disciplined.tree pair.1 ∧ ¬ pair.1.Returns :=
            fun pair hpair => hoperand rfl (List.mem_flatMap.mpr ⟨pair, hpair, by simp⟩)
          have hvalues : ∀ pair ∈ nodes, Law.disciplined.tree pair.2 ∧ ¬ pair.2.Returns :=
            fun pair hpair => hoperand rfl (List.mem_flatMap.mpr ⟨pair, hpair, by simp⟩)
          apply (pairs_carries (hsteady scope) hstep hm hkeys hvalues .empty).andThen
            (pairs_keeps (hsteady scope) hm uncounted
              (fun pair h => ⟨(hkeys pair h).1, (hvalues pair h).1⟩) hasPairs_nil)
          intro found m' _ _ _
          cases found with
          | ok entries => exact (newHash_carries entries).asResult
          | error reason => exact .pure rfl
      | unary t operator operand =>
          apply hworks rfl List.mem_cons_self hm
          intro d m' _ _
          exact .pure rfl
      | binary t left operator right =>
          apply hworks rfl List.mem_cons_self hm
          intro l m' hm' _
          apply hworks rfl (List.mem_cons_of_mem _ List.mem_cons_self) hm'
          intro r m'' _ _
          exact .pure rfl
      | conditional t condition consequence alternative =>
          have hbranch {block : Node}
              (hblock : block ∈ (Node.conditional t condition consequence alternative).children)
              {m' : PlainMachine} (hm' : m'.machine.Regular .disciplined) :
              Carries (Option.map Plain.value)
                (LeavesIf (Node.conditional t condition consequence alternative).Returns) m'
                (branch (evaluate levels scope) block)
                (Exiting.branch (Exiting.evaluate levels scope) block) := by
            apply (branch_carries (hsteady scope) hstep hm' fun _ hstatement =>
              Law.disciplined.statement_of_child hnode rfl hblock hstatement).mono
            rintro d found ⟨⟨statement, hstatement, hreturns⟩, hfound⟩
            exact ⟨hreturns.of_statements hstatement hblock rfl, hfound⟩
          apply hworks rfl List.mem_cons_self hm
          intro d m' hm' _
          cases d.value.isTruthy with
          | true => exact hbranch (by simp [Node.children]) hm'
          | false =>
              cases alternative with
              | some block => exact hbranch (by simp [Node.children]) hm'
              | none => exact .pure rfl
      | function t parameters body => exact (function_carries scope parameters body).asResult
      | call t callee nodes =>
          apply hworks rfl List.mem_cons_self hm
          intro f m₁ hm₁ hf
          have harguments : ∀ n ∈ nodes, Law.disciplined.tree n ∧ ¬ n.Returns :=
            fun n hn => hoperand rfl (List.mem_cons_of_mem _ hn)
          apply (values_carries (hsteady scope) hstep hm₁ harguments []).andThen
            (values_keeps (hsteady scope) hm₁ uncounted (fun n hn => (harguments n hn).1)
              hasAll_nil)
          intro found m₂ hgrown hm₂ hfound
          cases found with
          | error reason => exact .pure rfl
          | ok arguments =>
              exact (apply_carries hsteady ih hm₂ f (hf.mono hgrown) arguments
                (hfound _ rfl)).asResult
      | index t collection place =>
          apply hworks rfl List.mem_cons_self hm
          intro c m' hm' _
          apply hworks rfl (List.mem_cons_of_mem _ List.mem_cons_self) hm'
          intro i m'' _ _
          exact .pure rfl

end Scriptlet
