import Scriptlet.Proofs.Grammar.Formed
import Scriptlet.Proofs.Tree.Occurrence

/-!
Where returns may stand. A tree is disciplined if every conditional with a return in one
of its branches stands directly as a statement. In a disciplined tree of the form that
the grammar gives, no rule works on the value of a node in which a return stands: the
only expressions that can end in a return are conditionals, and these are statements.
-/

namespace Scriptlet.Node

/-- The property holds of the node and of all nodes below it. -/
inductive Every (property : Node → Prop) : Node → Prop where
  | intro {node : Node} (here : property node)
      (below : ∀ child ∈ node.children, Every property child) : Every property node

theorem Every.here {property : Node → Prop} {node : Node} (h : node.Every property) :
    property node := by
  obtain ⟨hhere, _⟩ := h
  exact hhere

theorem Every.child {property : Node → Prop} {node child : Node} (h : node.Every property)
    (hchild : child ∈ node.children) : child.Every property := by
  obtain ⟨_, hbelow⟩ := h
  exact hbelow child hchild

def isReturn : Node → Bool
  | .ret _ _ => true
  | _ => false

/-- A return stands in the tree outside function literals. -/
def Returns (node : Node) : Prop :=
  node.Exposes fun n => n.isReturn = true

/-- The blocks that a conditional chooses from. -/
def branches : Node → List Node
  | .conditional _ _ consequence alternative => consequence :: alternative.toList
  | _ => []

/-- Every conditional with a return in one of its branches stands directly as a
statement. -/
def Disciplined (node : Node) : Prop :=
  node.Every fun parent => ∀ child ∈ parent.children,
    (∃ block ∈ child.branches, block.Returns) → ∃ token, parent = .expression token child

/-- The nodes whose values a rule works on. -/
def operands : Node → List Node
  | .binding _ _ value => [value]
  | .ret _ value => value.toList
  | .array _ elements => elements
  | .hash _ pairs => pairs.flatMap fun (key, value) => [key, value]
  | .unary _ _ operand => [operand]
  | .binary _ left _ right => [left, right]
  | .conditional _ condition _ _ => [condition]
  | .call _ callee arguments => callee :: arguments
  | .index _ collection place => [collection, place]
  | _ => []

variable {node child : Node} {role : Role}

theorem operands_subset_children (h : child ∈ node.operands) : child ∈ node.children := by
  cases node with
  | binding token name value => exact List.mem_cons_of_mem _ h
  | conditional token condition consequence alternative =>
      rw [List.mem_singleton.mp h]
      exact List.mem_cons_self
  | ret | array | hash | unary | binary | call | index => exact h
  | _ => cases h

theorem Formed.operand (hformed : node.Formed role) (h : child ∈ node.operands) :
    child.Formed .expression := by
  cases hformed with
  | array _ hall => exact hall child h
  | hash _ hkey hvalue =>
      obtain ⟨pair, hpair, hmem⟩ := List.mem_flatMap.mp h
      rcases List.mem_pair.mp hmem with rfl | rfl
      · exact hkey pair hpair
      · exact hvalue pair hpair
  | unary _ _ hoperand | conditional _ hoperand _ _ | binding _ _ hoperand =>
      rw [List.mem_singleton.mp h]
      exact hoperand
  | binary _ _ hleft hright | index _ hleft hright =>
      rcases List.mem_pair.mp h with rfl | rfl
      · exact hleft
      · exact hright
  | call _ hcallee hall =>
      rcases List.mem_cons.mp h with rfl | hargument
      · exact hcallee
      · exact hall child hargument
  | ret _ hall => exact hall child (Option.mem_toList.mp h)
  | _ => cases h

/-- Below an expression stand operands, and the branches of a conditional. -/
theorem Formed.operand_or_branch (hformed : node.Formed .expression)
    (hfunction : node.isFunction = false) (h : child ∈ node.children) :
    child ∈ node.operands ∨ child ∈ node.branches := by
  cases hformed with
  | function => cases hfunction
  | conditional =>
      rcases List.mem_cons.mp h with rfl | hbranch
      · exact .inl List.mem_cons_self
      · exact .inr hbranch
  | _ => exact .inl h

/-- A disciplined expression in which a return stands is a conditional with a return in
one of its branches. -/
theorem Formed.branch_returns (hformed : node.Formed .expression)
    (hdisciplined : node.Disciplined) (h : node.Returns) :
    ∃ block ∈ node.branches, block.Returns := by
  induction h with
  | here hreturn => cases hformed <;> cases hreturn
  | @inside node child hfunction hchild hreturns ih =>
      rcases hformed.operand_or_branch hfunction hchild with hoperand | hbranch
      -- The operand would be such a conditional itself, and so stand as a statement.
      · obtain ⟨token, rfl⟩ := hdisciplined.here child hchild
          (ih (hformed.operand hoperand) (hdisciplined.child hchild))
        cases hoperand
      · exact ⟨child, hbranch, hreturns⟩

/-- No rule works on the value of a node in which a return stands. -/
theorem Formed.operand_not_returns (hformed : node.Formed role)
    (hdisciplined : node.Disciplined) (h : child ∈ node.operands) : ¬ child.Returns := by
  intro hreturns
  have hchild := operands_subset_children h
  obtain ⟨token, rfl⟩ := hdisciplined.here child hchild
    ((hformed.operand h).branch_returns (hdisciplined.child hchild) hreturns)
  cases h

/-- Where no conditional stands directly below a node, discipline is a matter of the nodes
below. -/
theorem Disciplined.of_children
    (h : ∀ child ∈ node.children, child.branches = [] ∧ child.Disciplined) :
    node.Disciplined := by
  constructor
  · rintro child hchild ⟨block, hblock, _⟩
    rw [(h child hchild).1] at hblock
    cases hblock
  · intro child hchild
    exact (h child hchild).2

theorem Disciplined.statement {value : Node} (token : Token) (h : value.Disciplined) :
    (Node.expression token value).Disciplined := by
  constructor
  · intro child hchild _
    rw [List.mem_singleton.mp hchild]
    exact ⟨token, rfl⟩
  · intro child hchild
    rw [List.mem_singleton.mp hchild]
    exact h

end Scriptlet.Node
