import Scriptlet.Tree.Node

/-!
What stands in a tree outside function literals. The body of a function literal is
evaluated where the function is called, so what a node does in its own scope is told by
the nodes below it that no function literal encloses.
-/

namespace Scriptlet.Node

def isFunction : Node → Bool
  | .function _ _ _ => true
  | _ => false

/-- A node with the property stands in the tree, and no function literal of the tree
encloses it. -/
inductive Exposes (property : Node → Prop) : Node → Prop where
  | here {node : Node} (h : property node) : Exposes property node
  | inside {node child : Node} (hfunction : node.isFunction = false)
      (hchild : child ∈ node.children) (h : Exposes property child) : Exposes property node

/-- Outside function literals a node exposes what it is and what the nodes below it expose. -/
theorem exposes_iff {property : Node → Prop} {node : Node}
    (h : node.isFunction = false) :
    node.Exposes property ↔ property node ∨ ∃ child ∈ node.children, child.Exposes property := by
  constructor
  · rintro (hhere | ⟨_, hchild, hbelow⟩)
    · exact .inl hhere
    · exact .inr ⟨_, hchild, hbelow⟩
  · rintro (hhere | ⟨child, hchild, hbelow⟩)
    · exact .here hhere
    · exact .inside h hchild hbelow

/-- The name is bound by a binding that stands in the tree outside function literals. -/
def Binds (node : Node) (name : String) : Prop :=
  node.Exposes fun n => ∃ token id value, n = .binding token id value ∧ id.name = name

theorem mem_children_of_statements {block node : Node} (h : node ∈ block.statements) :
    node ∈ block.children ∧ block.isFunction = false := by
  cases block with
  | program statements => exact ⟨h, rfl⟩
  | block token statements => exact ⟨h, rfl⟩
  | _ => cases h

/-- What the statements of a block below a node expose is exposed by the node. -/
theorem Exposes.of_statements {property : Node → Prop} {node block statement : Node}
    (h : statement.Exposes property) (hstatement : statement ∈ block.statements)
    (hblock : block ∈ node.children) (hfunction : node.isFunction = false) :
    node.Exposes property := by
  obtain ⟨hchild, hopen⟩ := mem_children_of_statements hstatement
  exact .inside hfunction hblock (.inside hopen hchild h)

end Scriptlet.Node
