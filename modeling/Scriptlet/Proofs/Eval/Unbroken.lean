import Scriptlet.Proofs.Eval.Guarded
import Scriptlet.Proofs.Eval.Returned

/-!
Evaluation of what the parser builds never breaks off. In a tree of the form that the
grammar gives, every node has a rule, and the nodes whose values a rule needs are
expressions, which have one: a branch or a call without a value gives null. Functions keep
their bodies, so this is carried through a run by what is stored in the scopes: all bodies
are blocks of that form. It holds for any number of programs evaluated in turn, also where
one of them was nested too deeply to be followed to its end.
-/

namespace Scriptlet

/-- The law of trees that the grammar gives. -/
def Law.formed : Law where
  tree node := ∃ role, node.Formed role
  body block := block.Formed .block
  counted := False
  child h _ hchild := by
    obtain ⟨role, hformed⟩ := h
    exact hformed.child hchild
  literal h := by
    obtain ⟨role, hformed⟩ := h
    cases hformed with
    | function _ _ hbody => exact hbody
  statement h hstatement := h.child (Node.mem_children_of_statements hstatement).1

namespace Node.Formed

variable {block node : Node}

theorem statement_of_block (h : block.Formed .block) (hnode : node ∈ block.statements) :
    node.Formed .statement := by
  cases h with
  | block _ hall => exact hall node hnode

end Node.Formed

namespace Eval

variable {α β : Type} {m : Machine}

/-- From the machine, the evaluation is done with a good result or gives up; it does not
break off. -/
def Unbroken (m : Machine) (good : α → Prop) (e : Eval α) : Prop :=
  (∃ a m', e m = .done a m' ∧ good a) ∨ ∃ m', e m = .tooDeep m'

/-- The role of an expression is to have a value. -/
def Fulfils (role : Role) (found : Option Value) : Prop :=
  role = .expression → found.isSome = true

theorem fulfils_some (role : Role) (v : Value) : Fulfils role (some v) :=
  fun _ => rfl

theorem fulfils_of_ne {role : Role} (h : role ≠ .expression) (found : Option Value) :
    Fulfils role found :=
  fun heq => absurd heq h

namespace Unbroken

variable {good : α → Prop} {good' : β → Prop} {kept : Machine → α → Prop} {e : Eval α}

theorem done {a : α} {m' : Machine} (h : e m = .done a m') (hgood : good a) :
    Unbroken m good e :=
  .inl ⟨a, m', h, hgood⟩

theorem pure {a : α} (h : good a) : Unbroken m good (Pure.pure a) :=
  done rfl h

theorem mono {good' : α → Prop} (h : Unbroken m good e) (hle : ∀ a, good a → good' a) :
    Unbroken m good' e := by
  rcases h with ⟨a, m', hrun, hgood⟩ | hdeep
  · exact done hrun (hle a hgood)
  · exact .inr hdeep

/-- One evaluation behind another, with what the first keeps. -/
theorem bind {next : α → Eval β} (h : Unbroken m good e) (hkeeps : Keeps .formed m kept e)
    (hnext : ∀ a m', m.Grown m' → m'.Regular .formed → kept m' a → good a →
      Unbroken m' good' (next a)) :
    Unbroken m good' (e >>= next) := by
  show Unbroken m good' (Eval.bind e next)
  obtain ⟨hgrown, hregular, hkept⟩ := hkeeps
  rcases h with ⟨a, m', hrun, hgood⟩ | ⟨m', hrun⟩
  · rw [hrun] at hgrown hregular
    have hrest := hnext a m' hgrown hregular (hkept a m' hrun) hgood
    simpa only [Unbroken, Eval.bind, hrun] using hrest
  · exact .inr ⟨m', by simp only [Eval.bind, hrun]⟩

/-- A value is what an expression needs. -/
theorem asResult {e : Eval Value} (h : Unbroken m (fun _ => True) e) (role : Role) :
    Unbroken m (Fulfils role) (some <$> e) := by
  show Unbroken m (Fulfils role) (Eval.bind e fun v => Eval.pure (some v))
  rcases h with ⟨v, m', hrun, _⟩ | ⟨m', hrun⟩
  · exact done (by simp only [Eval.bind, hrun, Eval.pure]; rfl) (fulfils_some role v)
  · exact .inr ⟨m', by simp only [Eval.bind, hrun]⟩

end Unbroken

theorem ident_unbroken (scope : ScopeId) (name : String) :
    Unbroken m (fun _ => True) (Eval.ident scope name) := by
  cases hlookup : m.heap.get? scope name with
  | some v =>
      have hrun : Eval.ident scope name m = .done v m := by
        simp only [Eval.ident, lookup, Bind.bind, Eval.bind, hlookup]
        rfl
      exact .done hrun trivial
  | none =>
      have hrun : Eval.ident scope name m = .done
          (((Builtin.ofName? name).map Value.builtin).getD (.error (.notFound name))) m := by
        simp only [Eval.ident, lookup, Bind.bind, Eval.bind, hlookup]
        cases Builtin.ofName? name <;> rfl
      exact .done hrun trivial

theorem builtin_unbroken (f : Builtin) (arguments : List Value) :
    Unbroken m (fun _ => True) (f.apply arguments) := by
  obtain ⟨v, m', hdone, _⟩ := f.gives_apply arguments m
  exact .done hdone trivial

theorem bindAll_unbroken (scope : ScopeId) (names : List String) (vs : List Value) :
    Unbroken m (fun _ => True) (bindAll scope names vs) := by
  induction names generalizing m vs with
  | nil => exact .done rfl trivial
  | cons name names ih =>
      cases vs with
      | nil => exact .done rfl trivial
      | cons v vs => exact ih vs

/-- A step that neither breaks off nor leaves an expression without a value. -/
def Sure (step : Step) : Prop :=
  ∀ role node m, node.Formed role → m.Regular .formed → Unbroken m (Fulfils role) (step node)

theorem Steady.formed {scope : ScopeId} {step : Step} (h : Steady .formed scope step)
    (hm : m.Regular .formed) {role : Role} {node : Node} (hnode : node.Formed role) :
    Keeps .formed m (HasAny .formed) (step node) :=
  h node m ⟨role, hnode⟩ hm False.elim

section Rules

variable {scope : ScopeId} {step : Step} (hkeeps : Steady .formed scope step)
  (hstep : Sure step) (hm : m.Regular .formed)

include hkeeps hstep hm

theorem value_unbroken {node : Node} (hnode : node.Formed .expression) :
    Unbroken m (fun _ => True) (value step node) := by
  apply (hstep .expression node m hnode hm).bind (hkeeps.formed hm hnode)
  intro found m' _ _ _ hfound
  cases found with
  | some v => exact .pure trivial
  | none => cases hfound rfl

theorem withValue_unbroken {role : Role} {node : Node} (hnode : node.Formed .expression)
    {next : Value → Eval (Option Value)}
    (hnext : ∀ v m', m.Grown m' → m'.Regular .formed → m'.Has .formed v →
      Unbroken m' (Fulfils role) (next v)) :
    Unbroken m (Fulfils role) (withValue step node next) := by
  apply (value_unbroken hkeeps hstep hm hnode).bind
    (value_keeps hkeeps hm False.elim ⟨_, hnode⟩)
  intro v m' hgrown hm' hv _
  split
  · exact .pure (fulfils_some role v)
  · exact hnext v m' hgrown hm' hv

theorem statements_unbroken {nodes : List Node}
    (hnodes : ∀ node ∈ nodes, node.Formed .statement) (result : Option Value) :
    Unbroken m (fun _ => True) (statements step nodes result) := by
  induction nodes generalizing m result with
  | nil => exact .pure trivial
  | cons node nodes ih =>
      rw [List.forall_mem_cons] at hnodes
      apply (hstep .statement node m hnodes.1 hm).bind (hkeeps.formed hm hnodes.1)
      intro found m' _ hm' _ _
      cases found with
      | none => exact ih hm' hnodes.2 none
      | some v =>
          simp only
          split
          · exact .pure trivial
          · exact ih hm' hnodes.2 (some v)

theorem branch_unbroken {role : Role} {block : Node} (hblock : block.Formed .block) :
    Unbroken m (Fulfils role) (branch step block) := by
  have hnodes (node : Node) (hnode : node ∈ block.statements) : node.Formed .statement :=
    hblock.statement_of_block hnode
  apply (statements_unbroken hkeeps hstep hm hnodes none).bind
    (statements_keeps hkeeps hm False.elim (fun node hnode => ⟨_, hnodes node hnode⟩)
      hasAny_none)
  intro result m' _ _ _ _
  exact .pure (fulfils_some role _)

theorem values_unbroken {nodes : List Node}
    (hnodes : ∀ node ∈ nodes, node.Formed .expression) (found : List Value) :
    Unbroken m (fun _ => True) (values step nodes found) := by
  induction nodes generalizing m found with
  | nil => exact .pure trivial
  | cons node nodes ih =>
      rw [List.forall_mem_cons] at hnodes
      apply (value_unbroken hkeeps hstep hm hnodes.1).bind
        (value_keeps hkeeps hm False.elim ⟨_, hnodes.1⟩)
      intro v m' _ hm' _ _
      split
      · exact .pure trivial
      · exact ih hm' hnodes.2 _

theorem pairs_unbroken {nodes : List (Node × Node)}
    (hnodes : ∀ pair ∈ nodes, pair.1.Formed .expression ∧ pair.2.Formed .expression)
    (found : List (Key × Value)) :
    Unbroken m (fun _ => True) (pairs step nodes found) := by
  induction nodes generalizing m found with
  | nil => exact .pure trivial
  | cons pair nodes ih =>
      rw [List.forall_mem_cons] at hnodes
      apply (value_unbroken hkeeps hstep hm hnodes.1.1).bind
        (value_keeps hkeeps hm False.elim ⟨_, hnodes.1.1⟩)
      intro key m₁ _ hm₁ _ _
      split
      · exact .pure trivial
      split
      · exact .pure trivial
      apply (value_unbroken hkeeps hstep hm₁ hnodes.1.2).bind
        (value_keeps hkeeps hm₁ False.elim ⟨_, hnodes.1.2⟩)
      intro v m₂ _ hm₂ _ _
      split
      · exact .pure trivial
      · exact ih hm₂ hnodes.2 _

end Rules

theorem apply_unbroken {stepIn : ScopeId → Step}
    (hkeeps : ∀ scope, Steady .formed scope (stepIn scope))
    (hstep : ∀ scope, Sure (stepIn scope)) (hm : m.Regular .formed)
    {callee : Value} (hcallee : m.Has .formed callee)
    {arguments : List Value} (harguments : HasAll .formed m arguments) :
    Unbroken m (fun _ => True) (apply stepIn callee arguments) := by
  cases callee with
  | function id parameters body captured =>
      have hbody : body.Formed .block := hcallee.here.body id parameters body captured rfl
      have hnodes (node : Node) (hnode : node ∈ body.statements) : node.Formed .statement :=
        hbody.statement_of_block hnode
      simp only [apply]
      split
      · exact .pure trivial
      have hnote (n : Note) : Unbroken m (fun _ => True) (note n) := .done rfl trivial
      apply (hnote _).bind (note_keeps hm _)
      intro _ m₁ hgrown₁ hm₁ _ _
      have hscope : Unbroken m₁ (fun _ => True) (newScope (some captured)) :=
        .done rfl trivial
      apply hscope.bind (newScope_keeps hm₁ False.elim)
      intro scope m₂ hgrown₂ hm₂ _ _
      have harguments₂ : HasAll .formed m₂ arguments :=
        fun v hv => (harguments v hv).mono (hgrown₁.trans hgrown₂)
      apply (bindAll_unbroken scope parameters arguments).bind
        (bindAll_keeps hm₂ scope parameters harguments₂)
      intro _ m₃ _ hm₃ _ _
      apply (statements_unbroken (hkeeps scope) (hstep scope) hm₃ hnodes none).bind
        (statements_keeps (hkeeps scope) hm₃ False.elim
          (fun node hnode => ⟨_, hnodes node hnode⟩) hasAny_none)
      intro _ _ _ _ _ _
      exact .pure trivial
  | builtin f => exact builtin_unbroken f arguments
  | _ => exact .pure trivial

end Eval

open Eval

/-- Evaluation of a tree that is formed as its role says does not break off, and gives
an expression a value. -/
theorem evaluate_unbroken (levels : Nat) (scope : ScopeId) : Sure (evaluate levels scope) := by
  induction levels generalizing scope with
  | zero => exact fun _ _ m _ _ => .inr ⟨m, rfl⟩
  | succ levels ih =>
      intro role node m hnode hm
      have hkeeps := evaluate_keeps .formed levels
      have hstep := ih scope
      cases hnode with
      | ident id => exact (ident_unbroken scope id.name).asResult _
      | integer t n => exact .pure (fulfils_some _ _)
      | boolean t b => exact .pure (fulfils_some _ _)
      | text t s => exact .pure (fulfils_some _ _)
      | array t hnodes =>
          apply (values_unbroken (hkeeps scope) hstep hm hnodes []).bind
            (values_keeps (hkeeps scope) hm False.elim (fun node h => ⟨_, hnodes node h⟩)
              hasAll_nil)
          intro found m' _ _ _ _
          cases found with
          | ok elements => exact .asResult (.done rfl trivial) _
          | error reason => exact .pure (fulfils_some _ _)
      | hash t hkey hvalue =>
          have hboth := fun pair h => And.intro (hkey pair h) (hvalue pair h)
          apply (pairs_unbroken (hkeeps scope) hstep hm hboth []).bind
            (pairs_keeps (hkeeps scope) hm False.elim
              (fun pair h => ⟨⟨_, hkey pair h⟩, ⟨_, hvalue pair h⟩⟩) hasPairs_nil)
          intro found m' _ _ _ _
          cases found with
          | ok pairs => exact .asResult (.done rfl trivial) _
          | error reason => exact .pure (fulfils_some _ _)
      | unary t operator h =>
          apply withValue_unbroken (hkeeps scope) hstep hm h
          intro v m' _ _ _
          exact .pure (fulfils_some _ _)
      | binary t operator hleft hright =>
          apply withValue_unbroken (hkeeps scope) hstep hm hleft
          intro l m₁ _ hm₁ _
          apply withValue_unbroken (hkeeps scope) hstep hm₁ hright
          intro r m₂ _ _ _
          exact .pure (fulfils_some _ _)
      | @conditional t _ _ alternative hcondition hconsequence halternative =>
          apply withValue_unbroken (hkeeps scope) hstep hm hcondition
          intro v m' _ hm' _
          split
          · exact branch_unbroken (hkeeps scope) hstep hm' hconsequence
          · cases alternative with
            | some block =>
                exact branch_unbroken (hkeeps scope) hstep hm' (halternative block rfl)
            | none => exact .pure (fulfils_some _ _)
      | function t parameters hbody => exact .asResult (.done rfl trivial) _
      | call t hcallee hnodes =>
          apply withValue_unbroken (hkeeps scope) hstep hm hcallee
          intro f m₁ _ hm₁ hf
          apply (values_unbroken (hkeeps scope) hstep hm₁ hnodes []).bind
            (values_keeps (hkeeps scope) hm₁ False.elim (fun node h => ⟨_, hnodes node h⟩)
              hasAll_nil)
          intro found m₂ hgrown hm₂ hfound _
          cases found with
          | ok arguments =>
              exact (apply_unbroken hkeeps ih hm₂ (hf.mono hgrown)
                (hfound arguments rfl)).asResult _
          | error reason => exact .pure (fulfils_some _ _)
      | index t hcollection hplace =>
          apply withValue_unbroken (hkeeps scope) hstep hm hcollection
          intro c m₁ _ hm₁ _
          apply withValue_unbroken (hkeeps scope) hstep hm₁ hplace
          intro i m₂ _ _ _
          exact .pure (fulfils_some _ _)
      | block t hnodes =>
          exact (statements_unbroken (hkeeps scope) hstep hm hnodes none).mono
            fun _ _ => fulfils_of_ne Role.noConfusion _
      | binding t name h =>
          apply withValue_unbroken (hkeeps scope) hstep hm h
          intro v m' _ _ _
          exact .done rfl (fulfils_of_ne Role.noConfusion none)
      | @ret t value h =>
          cases value with
          | none => exact .asResult (.done rfl trivial) _
          | some valueNode =>
              apply withValue_unbroken (hkeeps scope) hstep hm (h valueNode rfl)
              intro v m' _ _ _
              exact .asResult (.done rfl trivial) _
      | expression t h => exact (value_unbroken (hkeeps scope) hstep hm h).asResult _
      | program hnodes =>
          apply (statements_unbroken (hkeeps scope) hstep hm hnodes none).bind
            (statements_keeps (hkeeps scope) hm False.elim (fun node h => ⟨_, hnodes node h⟩)
              hasAny_none)
          intro _ _ _ _ _ _
          exact .pure (fulfils_of_ne Role.noConfusion _)

/-- What programs come to that are evaluated one after the other in a scope, each at most as
deep as it says. Each finds the machine as the one before it has left it, however that ended. -/
def outcomes (run : Nat → ScopeId → Step) (scope : ScopeId) :
    List (Nat × Node) → Machine → List (Outcome (Option Value))
  | [], _ => []
  | (levels, program) :: programs, m =>
    let outcome := run levels scope program m
    outcome :: outcomes run scope programs outcome.machine

/-- One program after the other finds a regular machine. -/
theorem outcomes_unbroken (scope : ScopeId) {programs : List (Nat × Node)}
    (hformed : ∀ entry ∈ programs, entry.2.Formed .program) {m : Machine}
    (hm : m.Regular .formed) :
    ∀ outcome ∈ outcomes evaluate scope programs m,
      (∃ found m', outcome = .done found m') ∨ ∃ m', outcome = .tooDeep m' := by
  induction programs generalizing m with
  | nil => exact nofun
  | cons entry programs ih =>
      obtain ⟨levels, program⟩ := entry
      rw [List.forall_mem_cons] at hformed
      obtain ⟨_, hregular, _⟩ := (evaluate_keeps .formed levels scope).formed hm hformed.1
      rw [outcomes, List.forall_mem_cons]
      constructor
      · rcases evaluate_unbroken levels scope .program program m hformed.1 hm with
          ⟨found, m', hdone, _⟩ | hdeep
        · exact .inl ⟨found, m', hdone⟩
        · exact .inr hdeep
      · exact ih hformed.2 hregular

/-- Programs that the parser has built, with or without diagnostics, from any tokens, and that are
evaluated one after the other in an empty scope: each is done, with a value or with none, or is
nested too deeply. None breaks off for want of a rule or of a value, and what a division by zero,
an element that is not there or a key of another type would lead to does not matter. -/
theorem parsed_programs_unbroken (fail : Failing) (programs : List (Nat × Node))
    (hparsed : ∀ entry ∈ programs, ∃ nesting c diagnostics,
      Reading.ofCursor nesting c = .parsed entry.2 diagnostics) :
    outcomes (Guarded.evaluate fail) Machine.withScope.1 programs Machine.withScope.2 =
        outcomes evaluate Machine.withScope.1 programs Machine.withScope.2 ∧
      ∀ outcome ∈ outcomes evaluate Machine.withScope.1 programs Machine.withScope.2,
        (∃ found m', outcome = .done found m') ∨ ∃ m', outcome = .tooDeep m' := by
  have hformed (entry : Nat × Node) (hentry : entry ∈ programs) :
      entry.2.Formed .program := by
    obtain ⟨nesting, c, diagnostics, hreading⟩ := hparsed entry hentry
    exact Reading.formed hreading
  have hguarded : Guarded.evaluate fail = evaluate := funext (Guarded.evaluate_eq fail)
  rw [hguarded]
  exact ⟨rfl, outcomes_unbroken _ hformed Machine.regular_withScope⟩

/-- `let d = fn(x) { 6 / x };` -/
def dividing : Node :=
  .program [.binding ⟨.keyword .letWord, "let", 1, 1⟩ ⟨⟨.ident, "d", 1, 5⟩, "d"⟩
    (.function ⟨.keyword .fnWord, "fn", 1, 9⟩ [⟨⟨.ident, "x", 1, 12⟩, "x"⟩]
      (.block ⟨.symbol .leftBrace, "\x7b", 1, 15⟩
        [.expression ⟨.number, "6", 1, 17⟩
          (.binary ⟨.symbol .divide, "/", 1, 19⟩ (.integer ⟨.number, "6", 1, 17⟩ 6) "/"
            (.ident ⟨⟨.ident, "x", 1, 21⟩, "x"⟩))]))]

/-- `d(0)` -/
def divided : Node :=
  .program [.expression ⟨.ident, "d", 1, 1⟩
    (.call ⟨.symbol .leftParen, "(", 1, 2⟩ (.ident ⟨⟨.ident, "d", 1, 1⟩, "d"⟩)
      [.integer ⟨.number, "0", 1, 3⟩ 0])]

/-- A function from a text with a mistake in it, and then a call of the function. -/
theorem parsed_programs_unbroken_divided :
    (∃ mistake, Reading.ofText 20 .empty "let d = fn(x) \x7b 6 / x \x7d; let 5" =
        .parsed dividing [mistake]) ∧
      Reading.ofText 20 .empty "d(0)" = .parsed divided [] ∧
      ∃ before after,
        outcomes (Guarded.evaluate fun _ _ => tooDeep) Machine.withScope.1
            [(20, dividing), (20, divided)] Machine.withScope.2 =
          [.done none before, .done (some (.error .divisionByZero)) after] := by
  have hfirst : ∃ mistake, Reading.ofText 20 .empty "let d = fn(x) \x7b 6 / x \x7d; let 5" =
      .parsed dividing [mistake] := ⟨_, rfl⟩
  have hsecond : Reading.ofText 20 .empty "d(0)" = .parsed divided [] := rfl
  refine ⟨hfirst, hsecond, ?_⟩
  obtain ⟨mistake, hfirst⟩ := hfirst
  rw [(parsed_programs_unbroken _ _ ?_).1]
  · exact ⟨_, _, rfl⟩
  · rw [List.forall_mem_cons, List.forall_mem_singleton]
    exact ⟨⟨20, _, _, hfirst⟩, ⟨20, _, _, hsecond⟩⟩

end Scriptlet
