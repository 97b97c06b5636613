import Scriptlet.Proofs.Parse.Relabel
import Scriptlet.Proofs.Tree.Rules

/-!
What is left of a tree when its tokens do not count. Structural equality and the canonical
text do not look at tokens: trees that a relabelling makes equal are structurally equal, and
a relabelled tree has the text of the old one.
-/

namespace Scriptlet

namespace Node

mutual

theorem same_self : ∀ n : Node, n.same n = true
  | .bare _ | .ret _ none => rfl
  | .ident id => by rw [same_ident, beq_self_eq_true]
  | .integer _ value => by rw [same_integer, beq_self_eq_true]
  | .boolean _ value => by rw [same_boolean, beq_self_eq_true]
  | .text _ value => by rw [same_text, beq_self_eq_true]
  | .program statements => sameAll_self statements
  | .block _ statements => sameAll_self statements
  | .binding _ name value => by
    rw [same_binding, beq_self_eq_true, same_self value, Bool.and_self]
  | .ret _ (some value) => same_self value
  | .expression _ value => same_self value
  | .array _ elements => sameAll_self elements
  | .hash _ entries => samePairs_self entries
  | .unary _ operator operand => by
    rw [same_unary, beq_self_eq_true, same_self operand, Bool.and_self]
  | .binary _ left operator right => by
    rw [same_binary, same_self left, beq_self_eq_true, same_self right]
    rfl
  | .conditional _ condition consequence none => by
    rw [same_conditional, same_self condition, same_self consequence, Bool.and_self]
  | .conditional _ condition consequence (some alternative) => by
    rw [same_alternative, same_self condition, same_self consequence,
      same_self alternative]
    rfl
  | .function _ parameters body => by
    rw [same_function, beq_self_eq_true, same_self body, Bool.and_self]
  | .call _ callee arguments => by
    rw [same_call, same_self callee, sameAll_self arguments, Bool.and_self]
  | .index _ collection place => by
    rw [same_index, same_self collection, same_self place, Bool.and_self]

theorem sameAll_self : ∀ ns : List Node, sameAll ns ns = true
  | [] => rfl
  | n :: ns => by rw [sameAll_cons, same_self n, sameAll_self ns, Bool.and_self]

theorem samePairs_self : ∀ entries : List (Node × Node), samePairs entries entries = true
  | [] => rfl
  | (key, value) :: entries => by
    rw [samePairs_cons, same_self key, same_self value, samePairs_self entries]
    rfl

end

end Node

namespace Relabelling

variable (r s : Relabelling)

theorem name_map_ident (names : List Ident) :
    (names.map r.ident).map Ident.name = names.map Ident.name := by
  rw [List.map_map]
  rfl

mutual

/-- Structural equality does not look at tokens. -/
theorem same_node : ∀ n m : Node, (r.node n).same m = n.same m
  | .bare _, m | .ident _, m | .integer _ _, m | .boolean _ _, m | .text _ _, m => by
    cases m <;> rfl
  | .program xs, m => by
    cases m with
    | program ys => exact sameAll_nodes xs ys
    | _ => rfl
  | .block _ xs, m => by
    cases m with
    | block _ ys => exact sameAll_nodes xs ys
    | _ => rfl
  | .binding _ name value, m => by
    cases m with
    | binding _ name' value' =>
        rw [node, Node.same_binding, Node.same_binding, same_node value]
        rfl
    | _ => rfl
  | .ret _ none, m => by
    cases m with
    | ret _ value' => cases value' <;> rfl
    | _ => rfl
  | .ret _ (some value), m => by
    cases m with
    | ret _ value' =>
        cases value' with
        | some value' => exact same_node value value'
        | none => rfl
    | _ => rfl
  | .expression _ value, m => by
    cases m with
    | expression _ value' => exact same_node value value'
    | _ => rfl
  | .array _ xs, m => by
    cases m with
    | array _ ys => exact sameAll_nodes xs ys
    | _ => rfl
  | .hash _ xs, m => by
    cases m with
    | hash _ ys => exact samePairs_pairs xs ys
    | _ => rfl
  | .unary _ operator operand, m => by
    cases m with
    | unary _ operator' operand' =>
        rw [node, Node.same_unary, Node.same_unary, same_node operand]
    | _ => rfl
  | .binary _ left operator right, m => by
    cases m with
    | binary _ left' operator' right' =>
        rw [node, Node.same_binary, Node.same_binary, same_node left, same_node right]
    | _ => rfl
  | .conditional _ condition consequence none, m => by
    cases m with
    | conditional _ condition' consequence' alternative' =>
        cases alternative' with
        | some alternative' => rfl
        | none =>
            rw [node, Node.same_conditional, Node.same_conditional, same_node condition,
              same_node consequence]
    | _ => rfl
  | .conditional _ condition consequence (some alternative), m => by
    cases m with
    | conditional _ condition' consequence' alternative' =>
        cases alternative' with
        | some alternative' =>
            rw [node, Node.same_alternative, Node.same_alternative, same_node condition,
              same_node consequence, same_node alternative]
        | none => rfl
    | _ => rfl
  | .function _ parameters body, m => by
    cases m with
    | function _ parameters' body' =>
        rw [node, Node.same_function, Node.same_function, same_node body, name_map_ident]
    | _ => rfl
  | .call _ callee xs, m => by
    cases m with
    | call _ callee' ys =>
        rw [node, Node.same_call, Node.same_call, same_node callee, sameAll_nodes xs]
    | _ => rfl
  | .index _ collection place, m => by
    cases m with
    | index _ collection' place' =>
        rw [node, Node.same_index, Node.same_index, same_node collection, same_node place]
    | _ => rfl

theorem sameAll_nodes : ∀ ns ms : List Node, Node.sameAll (r.nodes ns) ms = Node.sameAll ns ms
  | [], _ => rfl
  | _ :: _, [] => rfl
  | n :: ns, m :: ms => by
    rw [nodes, Node.sameAll_cons, Node.sameAll_cons, same_node n, sameAll_nodes ns]

theorem samePairs_pairs : ∀ ps qs : List (Node × Node),
    Node.samePairs (r.pairs ps) qs = Node.samePairs ps qs
  | [], _ => rfl
  | _ :: _, [] => rfl
  | (k, n) :: ps, (l, m) :: qs => by
    rw [pairs, Node.samePairs_cons, Node.samePairs_cons, same_node k, same_node n,
      samePairs_pairs ps]

end

/-- Trees that a change of tokens makes equal are structurally equal. -/
theorem same_of_node_eq {n m : Node} (h : r.node n = s.node m) : n.same m = true := by
  rw [← r.same_node, h, s.same_node]
  exact m.same_self

mutual

/-- The canonical text has nothing of the tokens in it. -/
theorem render_node : ∀ n : Node, (r.node n).render = n.render
  | .bare _ | .ident _ | .integer _ _ | .boolean _ _ | .text _ _ | .ret _ none => rfl
  | .program statements => congrArg Node.joinStatements (renderAll_nodes statements)
  | .block _ statements => by rw [node, Node.render_block, renderAll_nodes, Node.render_block]
  | .binding _ name value => by
    rw [node, Node.render_binding, render_node value, Node.render_binding]
    rfl
  | .ret _ (some value) => by rw [node, Node.render_ret, render_node value, Node.render_ret]
  | .expression _ value => render_node value
  | .array _ elements => by rw [node, Node.render_array, renderAll_nodes, Node.render_array]
  | .hash _ entries => by rw [node, Node.render_hash, renderPairs_pairs, Node.render_hash]
  | .unary _ operator operand => by
    rw [node, Node.render_unary, render_node operand, Node.render_unary]
  | .binary _ left operator right => by
    rw [node, Node.render_binary, render_node left, render_node right, Node.render_binary]
  | .conditional _ condition consequence none => by
    rw [node, Node.render_conditional, render_node condition, render_node consequence,
      Node.render_conditional]
  | .conditional _ condition consequence (some alternative) => by
    rw [node, Node.render_alternative, render_node condition, render_node consequence,
      render_node alternative, Node.render_alternative]
  | .function _ parameters body => by
    rw [node, Node.render_function, name_map_ident, render_node body, Node.render_function]
  | .call _ callee arguments => by
    rw [node, Node.render_call, render_node callee, renderAll_nodes, Node.render_call]
  | .index _ collection place => by
    rw [node, Node.render_index, render_node collection, render_node place, Node.render_index]

theorem renderAll_nodes : ∀ ns : List Node, Node.renderAll (r.nodes ns) = Node.renderAll ns
  | [] => rfl
  | n :: ns => by
    rw [nodes, Node.renderAll_cons, render_node n, renderAll_nodes ns, Node.renderAll_cons]

theorem renderPairs_pairs : ∀ entries : List (Node × Node),
    Node.renderPairs (r.pairs entries) = Node.renderPairs entries
  | [] => rfl
  | (key, value) :: entries => by
    rw [pairs, Node.renderPairs_cons, render_node key, render_node value,
      renderPairs_pairs entries, Node.renderPairs_cons]

end

theorem statements_node (n : Node) : (r.node n).statements = n.statements.map r.node := by
  rw [← nodes_eq_map]
  cases n with
  | ret _ value => cases value <;> rfl
  | conditional _ _ _ alternative => cases alternative <;> rfl
  | _ => rfl

theorem kind_node (n : Node) : (r.node n).kind = n.kind := by
  cases n with
  | ret _ value => cases value <;> rfl
  | conditional _ _ _ alternative => cases alternative <;> rfl
  | _ => rfl

end Relabelling

end Scriptlet
