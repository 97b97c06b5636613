import Scriptlet.Eval.Evaluate
import Scriptlet.Proofs.Eval.Yield
import Scriptlet.Proofs.Scope.Contents
import Scriptlet.Proofs.Tree.Occurrence

/-!
What is regular stays regular. A law says which trees may be evaluated and which may be
the bodies of functions; it may also ask that numbers and scopes be counted. In a regular
machine every value that is bound belongs to the machine: the law admits the bodies of
its functions and, where it counts, their scopes are there, the numbers of values have
been given out, and every scope lies inside an older one. Evaluation of a tree that the
law admits leaves the machine regular and gives a value that belongs to it. The machine
with one empty scope is regular, so all that are made from it are.
-/

namespace Scriptlet

structure Law where
  /-- Which trees may be evaluated. -/
  tree : Node → Prop
  /-- Which trees may be bodies of functions. -/
  body : Node → Prop
  /-- Numbers and scopes are counted. -/
  counted : Prop
  child : ∀ {node child}, tree node → node.isFunction = false → child ∈ node.children →
    tree child
  literal : ∀ {token parameters block}, tree (.function token parameters block) → body block
  statement : ∀ {block node}, body block → node ∈ block.statements → tree node

/-- The law that admits everything and counts. -/
def Law.counting : Law where
  tree _ := True
  body _ := True
  counted := True
  child _ _ _ := trivial
  literal _ := trivial
  statement _ _ := trivial

/-- A law that admits a tree admits the statements of the blocks directly below it. -/
theorem Law.statement_of_child {law : Law} {node block statement : Node} (h : law.tree node)
    (hfunction : node.isFunction = false) (hblock : block ∈ node.children)
    (hstatement : statement ∈ block.statements) : law.tree statement := by
  obtain ⟨hchild, hopen⟩ := Node.mem_children_of_statements hstatement
  exact law.child (law.child h hfunction hblock) hopen hchild

namespace Machine

/-- A machine later on, as far as numbers and scopes are counted. -/
structure Grown (m n : Machine) : Prop where
  nextId_le : m.nextId ≤ n.nextId
  size_le : m.heap.scopes.size ≤ n.heap.scopes.size

/-- A value belongs to the machine, apart from what it holds. -/
structure Fits (law : Law) (m : Machine) (v : Value) : Prop where
  number_lt : law.counted → ∀ id, v.number? = some id → id < m.nextId
  scope_lt : law.counted → ∀ id parameters body scope,
    v = .function id parameters body scope → scope < m.heap.scopes.size
  body : ∀ id parameters body scope, v = .function id parameters body scope → law.body body

/-- A value belongs to the machine, with all that it holds. -/
def Has (law : Law) (m : Machine) (v : Value) : Prop :=
  v.Every (m.Fits law)

structure Regular (law : Law) (m : Machine) : Prop where
  outer_lt : law.counted → ∀ {o i}, m.heap.Encloses o i → o < i
  stored : ∀ {v}, m.heap.Stores v → m.Has law v

variable {law : Law} {m n : Machine} {v : Value}

theorem Grown.refl : m.Grown m :=
  ⟨Nat.le_refl _, Nat.le_refl _⟩

theorem Grown.trans {o : Machine} (h : m.Grown n) (h' : n.Grown o) : m.Grown o :=
  ⟨Nat.le_trans h.nextId_le h'.nextId_le, Nat.le_trans h.size_le h'.size_le⟩

/-- A scope that is there stays there. -/
theorem Grown.there (h : m.Grown n) {scope : ScopeId}
    (hscope : law.counted → scope < m.heap.scopes.size) :
    law.counted → scope < n.heap.scopes.size :=
  fun hcounted => Nat.lt_of_lt_of_le (hscope hcounted) h.size_le

namespace Fits

/-- What belongs to a machine belongs to it later on, for numbers and scopes only grow. -/
theorem mono (h : m.Fits law v) (hgrown : m.Grown n) : n.Fits law v := by
  constructor
  · intro hcounted id hid
    exact Nat.lt_of_lt_of_le (h.number_lt hcounted id hid) hgrown.nextId_le
  · intro hcounted id parameters body scope heq
    have hscope := h.scope_lt hcounted id parameters body scope heq
    exact Nat.lt_of_lt_of_le hscope hgrown.size_le
  · exact h.body

/-- A value without a number says nothing about the machine. -/
theorem flat (h : v.number? = none) : m.Fits law v := by
  constructor
  · intro _ id hid
    rw [h] at hid
    cases hid
  · rintro _ id parameters body scope rfl
    cases h
  · rintro id parameters body scope rfl
    cases h

/-- What is no function needs but a number. -/
theorem numbered {id : Nat} (hid : v.number? = some id) (hlt : id < m.nextId)
    (hfunction : v.tag ≠ .function) : m.Fits law v := by
  constructor
  · intro _ other hother
    rw [hid] at hother
    cases hother
    exact hlt
  · rintro _ _ _ _ _ rfl
    exact absurd rfl hfunction
  · rintro _ _ _ _ rfl
    exact absurd rfl hfunction

end Fits

namespace Has

theorem mono (h : m.Has law v) (hgrown : m.Grown n) : n.Has law v :=
  Value.Every.mono h fun hfits => hfits.mono hgrown

theorem flat (h : v.number? = none) : m.Has law v :=
  Value.Every.flat Fits.flat h

theorem getD {found : Option Value} (h : ∀ v ∈ found, m.Has law v) :
    m.Has law (found.getD .null) :=
  Value.Every.getD Fits.flat h

/-- A closure belongs to the machine if its scope does and the law admits its body. -/
theorem function {id : Nat} {parameters : List String} {body : Node} {scope : ScopeId}
    (hid : id < m.nextId) (hscope : law.counted → scope < m.heap.scopes.size)
    (hbody : law.body body) : m.Has law (.function id parameters body scope) := by
  constructor
  · constructor
    · rintro _ _ ⟨⟩
      exact hid
    · rintro hcounted _ _ _ _ ⟨⟩
      exact hscope hcounted
    · rintro _ _ _ _ ⟨⟩
      exact hbody
  · intro u hu
    cases hu

end Has

/-- A step that leaves the scopes alone. -/
theorem Regular.of_heap_eq (h : m.Regular law) (hheap : n.heap = m.heap)
    (hnext : m.nextId ≤ n.nextId) : n.Regular law := by
  have hgrown : m.Grown n := ⟨hnext, Nat.le_of_eq (by rw [hheap])⟩
  constructor
  · intro hcounted o i
    rw [hheap]
    exact h.outer_lt hcounted
  · intro v
    rw [hheap]
    exact fun hstored => (h.stored hstored).mono hgrown

/-- What is bound must belong to the machine. -/
theorem Regular.bind (h : m.Regular law) (scope : ScopeId) (name : String)
    (hv : m.Has law v) : ({ m with heap := m.heap.bind scope name v } : Machine).Regular law := by
  have hgrown : m.Grown { m with heap := m.heap.bind scope name v } :=
    ⟨Nat.le_refl _, Nat.le_of_eq (by simp [Heap.bind])⟩
  constructor
  · intro hcounted o i henclosed
    exact h.outer_lt hcounted (Heap.encloses_bind henclosed)
  · intro u hstored
    rcases Heap.stores_bind hstored with rfl | hold
    · exact hv.mono hgrown
    · exact (h.stored hold).mono hgrown

/-- A scope made inside one that is there lies inside an older one. -/
theorem Regular.enclose (h : m.Regular law) {outer : ScopeId}
    (houter : law.counted → outer < m.heap.scopes.size) :
    ({ m with heap := (m.heap.enclose (some outer)).2 } : Machine).Regular law := by
  have hgrown : m.Grown { m with heap := (m.heap.enclose (some outer)).2 } :=
    ⟨Nat.le_refl _, by simp [Heap.enclose]⟩
  constructor
  · intro hcounted o i henclosed
    rcases Heap.encloses_enclose henclosed with hold | ⟨rfl, heq⟩
    · exact h.outer_lt hcounted hold
    · cases heq
      exact houter hcounted
  · intro u hstored
    exact (h.stored (Heap.stores_enclose hstored)).mono hgrown

/-- All runs start here. -/
theorem regular_withScope : Machine.withScope.2.Regular law := by
  constructor
  · rintro _ o i ⟨s, hs, houter⟩
    cases Array.mem_singleton.mp (Array.mem_of_getElem? hs)
    cases houter
  · rintro v ⟨s, hs, name, hbinding⟩
    cases Array.mem_singleton.mp hs
    cases hbinding

end Machine

namespace Eval

variable {α β : Type} {law : Law} {m : Machine}

/-- However the evaluation ends, the machine is regular and has grown; if there is a
result, it is good. -/
def Keeps (law : Law) (m : Machine) (good : Machine → α → Prop) (e : Eval α) : Prop :=
  m.Grown (e m).machine ∧ (e m).machine.Regular law ∧
    ∀ a m', e m = .done a m' → good m' a

/-- Whatever values there are belong to the machine. -/
def HasAny (law : Law) (m : Machine) (found : Option Value) : Prop :=
  ∀ v ∈ found, m.Has law v

def HasAll (law : Law) (m : Machine) (vs : List Value) : Prop :=
  ∀ v ∈ vs, m.Has law v

def HasPairs (law : Law) (m : Machine) (pairs : List (Key × Value)) : Prop :=
  ∀ pair ∈ pairs, m.Has law pair.2

theorem hasAny_none : HasAny law m none := by
  intro v hv
  cases hv

theorem hasAll_nil : HasAll law m [] := by
  intro v hv
  cases hv

theorem hasPairs_nil : HasPairs law m [] := by
  intro pair hpair
  cases hpair

def IfOk (good : Machine → α → Prop) (m : Machine) (result : Except RuntimeError α) : Prop :=
  ∀ a, result = .ok a → good m a

namespace Keeps

variable {good : Machine → α → Prop} {good' : Machine → β → Prop}

theorem pure (hm : m.Regular law) {a : α} (h : good m a) :
    Keeps law m good (Pure.pure a) := by
  refine ⟨.refl, hm, ?_⟩
  rintro _ _ ⟨⟩
  exact h

theorem breakOff (hm : m.Regular law) (breach : Breach) :
    Keeps law m good (Eval.breakOff breach) :=
  ⟨.refl, hm, nofun⟩

/-- The second part starts from a machine that has grown and is regular, with a result that is good
in it. -/
theorem bind {e : Eval α} {next : α → Eval β} (h : Keeps law m good e)
    (hnext : ∀ a m', m.Grown m' → m'.Regular law → good m' a → Keeps law m' good' (next a)) :
    Keeps law m good' (e >>= next) := by
  obtain ⟨hgrown, hregular, hgood⟩ := h
  show m.Grown (Eval.bind e next m).machine ∧ (Eval.bind e next m).machine.Regular law ∧
    ∀ b m', Eval.bind e next m = .done b m' → good' m' b
  unfold Eval.bind
  cases hrun : e m with
  | done a m' =>
      rw [hrun] at hgrown hregular
      obtain ⟨hgrown', hrest⟩ := hnext a m' hgrown hregular (hgood a m' hrun)
      exact ⟨hgrown.trans hgrown', hrest⟩
  | broken breach m' =>
      rw [hrun] at hgrown hregular
      exact ⟨hgrown, hregular, nofun⟩
  | tooDeep m' =>
      rw [hrun] at hgrown hregular
      exact ⟨hgrown, hregular, nofun⟩

theorem asResult {e : Eval Value} (h : Keeps law m (Machine.Has law) e) :
    Keeps law m (HasAny law) (some <$> e) := by
  apply h.bind
  intro v m' _ hm' hv
  apply Keeps.pure hm'
  rintro _ ⟨⟩
  exact hv

end Keeps

/-- The number given out is taken from then on. -/
theorem freshId_keeps (hm : m.Regular law) :
    Keeps law m (fun m' id => id < m'.nextId) freshId := by
  have hgrown : m.Grown { m with nextId := m.nextId + 1 } := ⟨Nat.le_succ _, Nat.le_refl _⟩
  refine ⟨hgrown, hm.of_heap_eq rfl (Nat.le_succ _), ?_⟩
  rintro _ _ ⟨⟩
  exact Nat.lt_succ_self _

theorem note_keeps (hm : m.Regular law) (n : Note) :
    Keeps law m (fun _ _ => True) (note n) :=
  ⟨⟨Nat.le_refl _, Nat.le_refl _⟩, hm.of_heap_eq rfl (Nat.le_refl _), fun _ _ _ => trivial⟩

theorem bindName_keeps (hm : m.Regular law) (scope : ScopeId) (name : String) {v : Value}
    (hv : m.Has law v) : Keeps law m (fun _ _ => True) (bindName scope name v) := by
  have hsize : m.heap.scopes.size = (m.heap.bind scope name v).scopes.size := by
    simp [Heap.bind]
  exact ⟨⟨Nat.le_refl _, Nat.le_of_eq hsize⟩, hm.bind scope name hv, fun _ _ _ => trivial⟩

theorem newScope_keeps (hm : m.Regular law) {outer : ScopeId}
    (houter : law.counted → outer < m.heap.scopes.size) :
    Keeps law m (fun m' scope => scope < m'.heap.scopes.size) (newScope (some outer)) := by
  have hsize : m.heap.scopes.size < (m.heap.enclose (some outer)).2.scopes.size := by
    simp [Heap.enclose]
  refine ⟨⟨Nat.le_refl _, Nat.le_of_lt hsize⟩, hm.enclose houter, ?_⟩
  rintro _ _ ⟨⟩
  exact hsize

theorem newArray_keeps (hm : m.Regular law) {vs : List Value} (h : HasAll law m vs) :
    Keeps law m (Machine.Has law) (newArray vs) := by
  apply (freshId_keeps hm).bind
  intro id m' hgrown hm' hid
  exact .pure hm' (.intro (.numbered rfl hid nofun) fun v hv => (h v hv).mono hgrown)

theorem newHash_keeps (hm : m.Regular law) {pairs : List (Key × Value)}
    (h : HasPairs law m pairs) : Keeps law m (Machine.Has law) (newHash pairs) := by
  apply (freshId_keeps hm).bind
  intro id m' hgrown hm' hid
  exact .pure hm' (.hash (.numbered rfl hid nofun) fun pair hpair => (h pair hpair).mono hgrown)

theorem newReturned_keeps (hm : m.Regular law) {v : Value} (h : m.Has law v) :
    Keeps law m (Machine.Has law) (newReturned v) := by
  apply (freshId_keeps hm).bind
  intro id m' hgrown hm' hid
  exact .pure hm' (.returned (.numbered rfl hid nofun) (h.mono hgrown))

/-- Making a closure asks that the scope is there and that the law admits the body. -/
theorem function_keeps (hm : m.Regular law) {scope : ScopeId}
    (hscope : law.counted → scope < m.heap.scopes.size) (parameters : List Ident) {body : Node}
    (hbody : law.body body) :
    Keeps law m (Machine.Has law) (Eval.function scope parameters body) := by
  apply (note_keeps hm _).bind
  intro _ m₁ hgrown₁ hm₁ _
  apply (freshId_keeps hm₁).bind
  intro id m₂ hgrown₂ hm₂ hid
  exact .pure hm₂ (.function hid ((hgrown₁.trans hgrown₂).there hscope) hbody)

/-- What a name stands for belongs to the machine, since everything that is bound does. -/
theorem ident_keeps (hm : m.Regular law) (scope : ScopeId) (name : String) :
    Keeps law m (Machine.Has law) (Eval.ident scope name) := by
  have hlookup : Keeps law m (HasAny law) (lookup scope name) := by
    refine ⟨.refl, hm, ?_⟩
    rintro _ _ ⟨⟩ v hv
    exact hm.stored (Heap.stores_of_get? hv)
  apply hlookup.bind
  intro found m' _ hm' hfound
  cases found with
  | some v => exact .pure hm' (hfound v rfl)
  | none =>
      simp only
      cases Builtin.ofName? name with
      | some f => exact .pure hm' (.flat rfl)
      | none => exact .pure hm' (.flat rfl)

/-- The seven functions give what they were given, or new arrays of that. -/
theorem builtin_keeps (hm : m.Regular law) (f : Builtin) {arguments : List Value}
    (h : HasAll law m arguments) : Keeps law m (Machine.Has law) (f.apply arguments) := by
  obtain ⟨v, m', hdone, hyield⟩ := f.gives_apply arguments m
  unfold Keeps
  rw [hdone]
  cases hyield with
  | flat hflat hheap hnext =>
      refine ⟨⟨Nat.le_of_eq hnext.symm, Nat.le_of_eq (by rw [← hheap]; rfl)⟩,
        hm.of_heap_eq hheap (Nat.le_of_eq hnext.symm), ?_⟩
      rintro _ _ ⟨⟩
      exact .flat hflat
  | found hmem =>
      refine ⟨.refl, hm, ?_⟩
      rintro _ _ ⟨⟩
      exact Builtin.every_supply h hmem
  | array hsub =>
      have hall : HasAll law m _ := fun v hv => Builtin.every_supply h (hsub hv)
      exact newArray_keeps hm hall

/-- A step that keeps machines regular where the law admits the tree and the scope is
there. -/
def Steady (law : Law) (scope : ScopeId) (step : Step) : Prop :=
  ∀ node m, law.tree node → m.Regular law → (law.counted → scope < m.heap.scopes.size) →
    Keeps law m (HasAny law) (step node)

section Rules

variable {scope : ScopeId} {step : Step} (hstep : Steady law scope step)
  (hm : m.Regular law) (hscope : law.counted → scope < m.heap.scopes.size)

include hstep hm hscope

theorem value_keeps {node : Node} (hnode : law.tree node) :
    Keeps law m (Machine.Has law) (value step node) := by
  apply (hstep node m hnode hm hscope).bind
  intro found m' _ hm' hfound
  cases found with
  | some v => exact .pure hm' (hfound v rfl)
  | none => exact .breakOff hm' _

/-- What follows may rely on the machine having grown, so what was known before is still good. -/
theorem withValue_keeps {node : Node} (hnode : law.tree node)
    {next : Value → Eval (Option Value)}
    (hnext : ∀ v m', m.Grown m' → m'.Regular law → m'.Has law v →
      Keeps law m' (HasAny law) (next v)) :
    Keeps law m (HasAny law) (withValue step node next) := by
  apply (value_keeps hstep hm hscope hnode).bind
  intro v m' hgrown hm' hv
  split
  · apply Keeps.pure hm'
    rintro _ ⟨⟩
    exact hv
  · exact hnext v m' hgrown hm' hv

theorem statements_keeps {nodes : List Node} (hnodes : ∀ node ∈ nodes, law.tree node)
    {result : Option Value} (hresult : HasAny law m result) :
    Keeps law m (HasAny law) (statements step nodes result) := by
  induction nodes generalizing m result with
  | nil => exact .pure hm hresult
  | cons node nodes ih =>
      rw [List.forall_mem_cons] at hnodes
      apply (hstep node m hnodes.1 hm hscope).bind
      intro found m' hgrown hm' hfound
      have hthere := hgrown.there hscope
      cases found with
      | none => exact ih hm' hthere hnodes.2 hasAny_none
      | some v =>
          simp only
          split
          · exact .pure hm' hfound
          · exact ih hm' hthere hnodes.2 hfound

theorem branch_keeps {block : Node} (hnodes : ∀ node ∈ block.statements, law.tree node) :
    Keeps law m (HasAny law) (branch step block) := by
  apply (statements_keeps hstep hm hscope hnodes hasAny_none).bind
  intro result m' _ hm' hresult
  apply Keeps.pure hm'
  rintro _ ⟨⟩
  exact .getD hresult

/-- Values found earlier still belong to the machine after later nodes are evaluated. -/
theorem values_keeps {nodes : List Node} (hnodes : ∀ node ∈ nodes, law.tree node)
    {found : List Value} (hfound : HasAll law m found) :
    Keeps law m (IfOk (HasAll law)) (values step nodes found) := by
  induction nodes generalizing m found with
  | nil =>
      apply Keeps.pure hm
      rintro _ ⟨⟩ v hv
      exact hfound v (List.mem_reverse.mp hv)
  | cons node nodes ih =>
      rw [List.forall_mem_cons] at hnodes
      apply (value_keeps hstep hm hscope hnodes.1).bind
      intro v m' hgrown hm' hv
      split
      · exact .pure hm' nofun
      · apply ih hm' (hgrown.there hscope) hnodes.2
        exact List.forall_mem_cons.mpr ⟨hv, fun u hu => (hfound u hu).mono hgrown⟩

theorem pairs_keeps {nodes : List (Node × Node)}
    (hnodes : ∀ pair ∈ nodes, law.tree pair.1 ∧ law.tree pair.2)
    {found : List (Key × Value)} (hfound : HasPairs law m found) :
    Keeps law m (IfOk (HasPairs law)) (pairs step nodes found) := by
  induction nodes generalizing m found with
  | nil =>
      apply Keeps.pure hm
      rintro _ ⟨⟩
      exact hfound
  | cons pair nodes ih =>
      rw [List.forall_mem_cons] at hnodes
      apply (value_keeps hstep hm hscope hnodes.1.1).bind
      intro key m₁ hgrown₁ hm₁ _
      have hthere₁ := hgrown₁.there hscope
      split
      · exact .pure hm₁ nofun
      split
      · exact .pure hm₁ nofun
      next k _ =>
        apply (value_keeps hstep hm₁ hthere₁ hnodes.1.2).bind
        intro v m₂ hgrown₂ hm₂ hv
        split
        · exact .pure hm₂ nofun
        · apply ih hm₂ (hgrown₂.there hthere₁) hnodes.2
          intro entry hentry
          rcases Value.mem_insertPair hentry with rfl | hold
          · exact hv
          · exact (hfound entry hold).mono (hgrown₁.trans hgrown₂)

end Rules

theorem bindAll_keeps (hm : m.Regular law) (scope : ScopeId) (names : List String)
    {vs : List Value} (h : HasAll law m vs) :
    Keeps law m (fun _ _ => True) (bindAll scope names vs) := by
  induction names generalizing m vs with
  | nil => exact .pure hm trivial
  | cons name names ih =>
      cases vs with
      | nil => exact .pure hm trivial
      | cons v vs =>
          obtain ⟨hv, hvs⟩ := List.forall_mem_cons.mp h
          apply (bindName_keeps hm scope name hv).bind
          intro _ m' hgrown hm' _
          exact ih hm' fun u hu => (hvs u hu).mono hgrown

/-- The scope of a call lies inside the captured one, and the law admits the body of every function
that belongs to the machine. -/
theorem apply_keeps {stepIn : ScopeId → Step} (hstep : ∀ scope, Steady law scope (stepIn scope))
    (hm : m.Regular law) {callee : Value} (hcallee : m.Has law callee)
    {arguments : List Value} (harguments : HasAll law m arguments) :
    Keeps law m (Machine.Has law) (apply stepIn callee arguments) := by
  cases callee with
  | function id parameters body captured =>
      have hfits := hcallee.here
      have hbody := hfits.body id parameters body captured rfl
      have hcaptured := fun hcounted => hfits.scope_lt hcounted id parameters body captured rfl
      simp only [apply]
      split
      · exact .pure hm (.flat rfl)
      · apply (note_keeps hm _).bind
        intro _ m₁ hgrown₁ hm₁ _
        -- What the callee captured is there already, so it is older than the scope of the call.
        apply (newScope_keeps hm₁ (hgrown₁.there hcaptured)).bind
        intro scope m₂ hgrown₂ hm₂ hscope
        have harguments₂ : HasAll law m₂ arguments :=
          fun v hv => (harguments v hv).mono (hgrown₁.trans hgrown₂)
        apply (bindAll_keeps hm₂ scope parameters harguments₂).bind
        intro _ m₃ hgrown₃ hm₃ _
        have hthere : law.counted → scope < m₃.heap.scopes.size := hgrown₃.there fun _ => hscope
        apply (statements_keeps (hstep scope) hm₃ hthere (fun _ => law.statement hbody)
          hasAny_none).bind
        intro result m₄ _ hm₄ hresult
        exact .pure hm₄ (Value.Every.unwrap (Machine.Has.getD hresult))
  | builtin f => exact builtin_keeps hm f harguments
  | _ => exact .pure hm (.flat rfl)

end Eval

open Eval

/-- Evaluation of a tree that the law admits keeps machines regular, and its result
belongs to the machine. -/
theorem evaluate_keeps (law : Law) (levels : Nat) (scope : ScopeId) :
    Steady law scope (evaluate levels scope) := by
  induction levels generalizing scope with
  | zero => exact fun node m _ hm _ => ⟨.refl, hm, nofun⟩
  | succ levels ih =>
      intro node m hnode hm hscope
      have hstep := ih scope
      have hflat {m' : Machine} (hm' : m'.Regular law) {v : Value} (h : v.number? = none) :
          Keeps law m' (HasAny law) (Pure.pure (some v)) := by
        apply Keeps.pure hm'
        rintro _ ⟨⟩
        exact .flat h
      cases node with
      | bare t => exact .breakOff hm _
      | program nodes =>
          apply (statements_keeps hstep hm hscope (fun _ => law.child hnode rfl)
            hasAny_none).bind
          intro result m' _ hm' hresult
          apply Keeps.pure hm'
          intro v hv
          obtain ⟨u, hu, rfl⟩ := Option.map_eq_some_iff.mp hv
          exact Value.Every.unwrap (hresult u hu)
      | block t nodes =>
          exact statements_keeps hstep hm hscope (fun _ => law.child hnode rfl) hasAny_none
      | binding t name valueNode =>
          apply withValue_keeps hstep hm hscope (law.child hnode rfl (by simp [Node.children]))
          intro v m' _ hm' hv
          apply (bindName_keeps hm' scope name.name hv).bind
          intro _ m'' _ hm'' _
          exact .pure hm'' nofun
      | ret t found =>
          cases found with
          | none => exact (newReturned_keeps hm (.flat rfl)).asResult
          | some valueNode =>
              apply withValue_keeps hstep hm hscope
                (law.child hnode rfl (by simp [Node.children]))
              intro v m' _ hm' hv
              exact (newReturned_keeps hm' hv).asResult
      | expression t valueNode =>
          have hvalue : law.tree valueNode := law.child hnode rfl (by simp [Node.children])
          exact (value_keeps hstep hm hscope hvalue).asResult
      | ident id => exact (ident_keeps hm scope id.name).asResult
      | integer t n => exact hflat hm rfl
      | boolean t b => exact hflat hm rfl
      | text t s => exact hflat hm rfl
      | array t nodes =>
          apply (values_keeps hstep hm hscope (fun _ => law.child hnode rfl) hasAll_nil).bind
          intro found m' _ hm' hfound
          cases found with
          | ok elements => exact (newArray_keeps hm' (hfound elements rfl)).asResult
          | error reason => exact hflat hm' rfl
      | hash t nodes =>
          have hpairs : ∀ pair ∈ nodes, law.tree pair.1 ∧ law.tree pair.2 := by
            intro pair hpair
            constructor
            · exact law.child hnode rfl (List.mem_flatMap.mpr ⟨pair, hpair, by simp⟩)
            · exact law.child hnode rfl (List.mem_flatMap.mpr ⟨pair, hpair, by simp⟩)
          apply (pairs_keeps hstep hm hscope hpairs hasPairs_nil).bind
          intro found m' _ hm' hfound
          cases found with
          | ok pairs => exact (newHash_keeps hm' (hfound pairs rfl)).asResult
          | error reason => exact hflat hm' rfl
      | unary t operator operand =>
          apply withValue_keeps hstep hm hscope (law.child hnode rfl (by simp [Node.children]))
          intro v m' _ hm' _
          exact hflat hm' (Value.number?_unary operator v)
      | binary t left operator right =>
          apply withValue_keeps hstep hm hscope (law.child hnode rfl (by simp [Node.children]))
          intro l m₁ hgrown hm₁ _
          apply withValue_keeps hstep hm₁ (hgrown.there hscope)
            (law.child hnode rfl (by simp [Node.children]))
          intro r m₂ _ hm₂ _
          exact hflat hm₂ (Value.number?_binary operator l r)
      | conditional t condition consequence alternative =>
          apply withValue_keeps hstep hm hscope (law.child hnode rfl (by simp [Node.children]))
          intro v m' hgrown hm' _
          have hthere := hgrown.there hscope
          split
          · apply branch_keeps hstep hm' hthere
            intro node hstatement
            exact law.statement_of_child hnode rfl (by simp [Node.children]) hstatement
          · cases alternative with
            | some block =>
                apply branch_keeps hstep hm' hthere
                intro node hstatement
                exact law.statement_of_child hnode rfl (by simp [Node.children]) hstatement
            | none => exact hflat hm' rfl
      | function t parameters body =>
          exact (function_keeps hm hscope parameters (law.literal hnode)).asResult
      | call t callee nodes =>
          apply withValue_keeps hstep hm hscope (law.child hnode rfl (by simp [Node.children]))
          intro f m₁ hgrown₁ hm₁ hf
          have hnodes : ∀ node ∈ nodes, law.tree node :=
            fun _ h => law.child hnode rfl (by simp [Node.children, h])
          apply (values_keeps hstep hm₁ (hgrown₁.there hscope) hnodes hasAll_nil).bind
          intro found m₂ hgrown₂ hm₂ hfound
          cases found with
          | ok arguments =>
              exact (apply_keeps ih hm₂ (hf.mono hgrown₂) (hfound arguments rfl)).asResult
          | error reason => exact hflat hm₂ rfl
      | index t collection place =>
          apply withValue_keeps hstep hm hscope (law.child hnode rfl (by simp [Node.children]))
          intro c m₁ hgrown₁ hm₁ hc
          apply withValue_keeps hstep hm₁ (hgrown₁.there hscope)
            (law.child hnode rfl (by simp [Node.children]))
          intro i m₂ hgrown₂ hm₂ _
          apply Keeps.pure hm₂
          rintro _ ⟨⟩
          exact Value.Every.index Machine.Fits.flat (hc.mono hgrown₂) i

end Scriptlet
