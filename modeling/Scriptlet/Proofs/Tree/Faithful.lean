import Scriptlet.Proofs.Tree.Outline
import Scriptlet.Proofs.Tree.Rules

/-!
Outlines are faithful. An outline puts all nodes below a node into one list, whatever fields they
stand in: pairs are taken apart, parameters stand before a body and a missing branch leaves no
trace. Rule by rule the list still tells the fields, so structural equality can be read off
the rule, the scalar and the children of two nodes. Hence two trees are structurally equal if
and only if their outlines differ in positions only.
-/

namespace Scriptlet

namespace Node

variable {a b : Node}

/-! Equality in terms of children. -/

/-- The names of all rules, in the order of the rules. -/
def rules : List String :=
  ["node", "program", "block_statement", "let_statement", "return_statement",
    "expression_statement", "identifier", "integer_literal", "boolean_literal", "string_literal",
    "array_literal", "hash_literal", "prefix_expression", "infix_expression", "if_expression",
    "function_literal", "call_expression", "index_expression"]

theorem idxOf_kind (n : Node) : rules.idxOf n.kind = n.ctorIdx := by
  cases n <;> rfl

theorem kind_of_same (h : a.same b = true) : a.kind = b.kind := by
  revert h
  fun_cases Node.same a b
  case case21 => exact nofun
  all_goals exact fun _ => rfl

theorem samePairs_eq_sameAll (ps qs : List (Node × Node)) :
    samePairs ps qs = sameAll (ps.flatMap fun (key, value) => [key, value])
      (qs.flatMap fun (key, value) => [key, value]) := by
  induction ps generalizing qs with
  | nil =>
      cases qs with
      | nil => rfl
      | cons q qs => rfl
  | cons p ps ih =>
      cases qs with
      | nil => rfl
      | cons q qs =>
          rw [samePairs_cons, ih, Bool.and_assoc]
          rfl

theorem sameAll_parameters (xs ys : List Ident) (n m : Node) :
    sameAll (xs.map ident ++ [n]) (ys.map ident ++ [m]) =
      (xs.map Ident.name == ys.map Ident.name && n.same m) := by
  induction xs generalizing ys with
  | nil =>
      cases ys with
      | nil => simp
      | cons y ys => cases ys <;> simp [sameAll]
  | cons x xs ih =>
      cases ys with
      | nil => cases xs <;> simp [sameAll]
      | cons y ys => simp [ih, Bool.and_assoc]

/-- Of two nodes of one rule, the scalar and the children tell all that matters. -/
theorem same_iff_of_kind (hkind : a.kind = b.kind) :
    a.same b = true ↔ a.scalar = b.scalar ∧ sameAll a.children b.children = true := by
  have hrule : a.ctorIdx = b.ctorIdx := by rw [← idxOf_kind, hkind, idxOf_kind]
  cases a with
  | bare t =>
      cases b with
      | bare u => simp [same, scalar, children]
      | _ => cases hrule
  | program xs =>
      cases b with
      | program ys => simp [same, scalar, children]
      | _ => cases hrule
  | block t xs =>
      cases b with
      | block u ys => simp [scalar, children]
      | _ => cases hrule
  | binding t x n =>
      cases b with
      | binding u y m => simp [scalar, children]
      | _ => cases hrule
  | ret t value =>
      cases b with
      | ret u value' =>
          cases value <;> cases value' <;> simp [scalar, children, same, sameAll]
      | _ => cases hrule
  | expression t n =>
      cases b with
      | expression u m => simp [scalar, children]
      | _ => cases hrule
  | ident x =>
      cases b with
      | ident y => simp [scalar, children]
      | _ => cases hrule
  | integer t x =>
      cases b with
      | integer u y => simp [scalar, children]
      | _ => cases hrule
  | boolean t x =>
      cases b with
      | boolean u y => simp [scalar, children]
      | _ => cases hrule
  | text t x =>
      cases b with
      | text u y => simp [scalar, children]
      | _ => cases hrule
  | array t xs =>
      cases b with
      | array u ys => simp [scalar, children]
      | _ => cases hrule
  | hash t ps =>
      cases b with
      | hash u qs => simp [scalar, children, samePairs_eq_sameAll]
      | _ => cases hrule
  | unary t f n =>
      cases b with
      | unary u g m => simp [scalar, children]
      | _ => cases hrule
  | binary t l f r =>
      cases b with
      | binary u l' g r' => simp [scalar, children, and_assoc, and_left_comm]
      | _ => cases hrule
  | conditional t c n e =>
      cases b with
      | conditional u c' m e' =>
          cases e <;> cases e' <;> simp [scalar, children, same, sameAll, and_assoc]
      | _ => cases hrule
  | function t xs n =>
      cases b with
      | function u ys m => simp [scalar, children, sameAll_parameters]
      | _ => cases hrule
  | call t f xs =>
      cases b with
      | call u g ys => simp [scalar, children]
      | _ => cases hrule
  | index t n i =>
      cases b with
      | index u m j => simp [scalar, children]
      | _ => cases hrule

theorem same_iff : a.same b = true ↔
    a.kind = b.kind ∧ a.scalar = b.scalar ∧ sameAll a.children b.children = true := by
  constructor
  · intro h
    exact ⟨kind_of_same h, (same_iff_of_kind (kind_of_same h)).mp h⟩
  · rintro ⟨hkind, h⟩
    exact (same_iff_of_kind hkind).mpr h

/-! Induction over children. -/

theorem sizeOf_ident (id : Ident) (t : Token) : sizeOf (ident id) < 1 + sizeOf t + sizeOf id := by
  cases t
  simp only [ident.sizeOf_spec, Token.mk.sizeOf_spec]
  omega

theorem sizeOf_children {child n : Node} (h : child ∈ n.children) : sizeOf child < sizeOf n := by
  cases n with
  | program xs | block t xs | array t xs =>
      have hlt : sizeOf child < sizeOf xs := List.sizeOf_lt_of_mem h
      simp only [program.sizeOf_spec, block.sizeOf_spec, array.sizeOf_spec]
      omega
  | binding t x n =>
      have hx := sizeOf_ident x t
      rw [binding.sizeOf_spec]
      simp only [children, List.mem_cons, List.not_mem_nil, or_false] at h
      rcases h with rfl | rfl <;> omega
  | ret t value =>
      obtain rfl := Option.mem_toList.mp h
      simp only [ret.sizeOf_spec, Option.some.sizeOf_spec]
      omega
  | expression t n | unary t f n =>
      rw [List.mem_singleton.mp h]
      simp only [expression.sizeOf_spec, unary.sizeOf_spec]
      omega
  | hash t ps =>
      obtain ⟨⟨key, value⟩, hpair, hmem⟩ := List.mem_flatMap.mp h
      have hlt : sizeOf (key, value) < sizeOf ps := List.sizeOf_lt_of_mem hpair
      simp only [Prod.mk.sizeOf_spec, hash.sizeOf_spec] at hlt ⊢
      simp only [List.mem_cons, List.not_mem_nil, or_false] at hmem
      rcases hmem with rfl | rfl <;> omega
  | binary t l f r | index t l r =>
      simp only [children, List.mem_cons, List.not_mem_nil, or_false] at h
      simp only [binary.sizeOf_spec, index.sizeOf_spec]
      rcases h with rfl | rfl <;> omega
  | conditional t c n e =>
      simp only [children, List.mem_cons, Option.mem_toList] at h
      rw [conditional.sizeOf_spec]
      rcases h with rfl | rfl | rfl
      · omega
      · omega
      · rw [Option.some.sizeOf_spec]
        omega
  | function t xs n =>
      simp only [children, List.mem_append, List.mem_map, List.mem_singleton] at h
      rw [function.sizeOf_spec]
      rcases h with ⟨x, hx, rfl⟩ | rfl
      · have hlt : sizeOf x < sizeOf xs := List.sizeOf_lt_of_mem hx
        have hident := sizeOf_ident x t
        omega
      · omega
  | call t f xs =>
      rw [call.sizeOf_spec]
      rcases List.mem_cons.mp h with rfl | hmem
      · omega
      · have hlt : sizeOf child < sizeOf xs := List.sizeOf_lt_of_mem hmem
        omega
  | _ => cases h

/-- Induction over the nodes below a node. -/
@[elab_as_elim]
theorem children_induction {motive : Node → Prop} (n : Node)
    (step : ∀ n, (∀ child ∈ n.children, motive child) → motive n) : motive n :=
  step n fun child _ => children_induction child step
termination_by sizeOf n
decreasing_by exact sizeOf_children ‹_›

end Node

namespace Outline

mutual

/-- The outline without positions: every node stands at line and column zero. -/
def unplaced : Outline → Outline
  | .node kind value _ _ children => .node kind value 0 0 (unplacedAll children)

def unplacedAll : List Outline → List Outline
  | [] => []
  | o :: os => o.unplaced :: unplacedAll os

end

theorem unplacedAll_eq_map (os : List Outline) : unplacedAll os = os.map unplaced := by
  induction os with
  | nil => rfl
  | cons o os ih =>
      rw [List.map_cons, ← ih]
      rfl

end Outline

namespace Node

variable {a b : Node}

theorem unplaced_outline (n : Node) : n.outline.unplaced =
    .node n.kind n.scalar 0 0 (n.children.map fun child => child.outline.unplaced) := by
  rw [outline_eq, outlineWith, Outline.unplaced, Outline.unplacedAll_eq_map, List.map_map]
  rfl

/-- A function that agrees with equality on the nodes of a list agrees with it on the list. -/
theorem map_eq_iff_sameAll {β : Type} {f : Node → β} {ns ms : List Node}
    (h : ∀ n ∈ ns, ∀ m, f n = f m ↔ n.same m = true) :
    ns.map f = ms.map f ↔ sameAll ns ms = true := by
  induction ns generalizing ms with
  | nil => cases ms <;> simp [sameAll]
  | cons n ns ih =>
      rw [List.forall_mem_cons] at h
      cases ms with
      | nil => simp [sameAll]
      | cons m ms => simp [h.1, ih h.2]

/-- Two trees have the same outline but for positions if and only if they are equal. -/
theorem unplaced_eq_iff_same (a b : Node) :
    a.outline.unplaced = b.outline.unplaced ↔ a.same b = true := by
  induction a using children_induction generalizing b with
  | step a ih =>
      rw [unplaced_outline, unplaced_outline, Outline.node.injEq, same_iff, map_eq_iff_sameAll ih]
      simp only [true_and]

end Node

/-! Trees whose tokens are replaced. Unlike a relabelling, what replaces a token may be of another
kind and have another value. -/

def Ident.retoken (f : Token → Token) (id : Ident) : Ident :=
  { id with token := f id.token }

namespace Node

mutual

/-- The tree with other tokens. -/
def retoken (f : Token → Token) : Node → Node
  | .bare t => .bare (f t)
  | .program statements => .program (retokenAll f statements)
  | .block t statements => .block (f t) (retokenAll f statements)
  | .binding t name value => .binding (f t) (name.retoken f) (value.retoken f)
  | .ret t none => .ret (f t) none
  | .ret t (some value) => .ret (f t) (value.retoken f)
  | .expression t value => .expression (f t) (value.retoken f)
  | .ident id => .ident (id.retoken f)
  | .integer t value => .integer (f t) value
  | .boolean t value => .boolean (f t) value
  | .text t value => .text (f t) value
  | .array t elements => .array (f t) (retokenAll f elements)
  | .hash t pairs => .hash (f t) (retokenPairs f pairs)
  | .unary t operator operand => .unary (f t) operator (operand.retoken f)
  | .binary t left operator right => .binary (f t) (left.retoken f) operator (right.retoken f)
  | .conditional t condition consequence none =>
    .conditional (f t) (condition.retoken f) (consequence.retoken f) none
  | .conditional t condition consequence (some alternative) =>
    .conditional (f t) (condition.retoken f) (consequence.retoken f) (alternative.retoken f)
  | .function t parameters body =>
    .function (f t) (parameters.map (Ident.retoken f)) (body.retoken f)
  | .call t callee arguments => .call (f t) (callee.retoken f) (retokenAll f arguments)
  | .index t collection place => .index (f t) (collection.retoken f) (place.retoken f)

def retokenAll (f : Token → Token) : List Node → List Node
  | [] => []
  | n :: ns => n.retoken f :: retokenAll f ns

def retokenPairs (f : Token → Token) : List (Node × Node) → List (Node × Node)
  | [] => []
  | (key, value) :: pairs => (key.retoken f, value.retoken f) :: retokenPairs f pairs

end

theorem retokenAll_eq_map (f : Token → Token) (ns : List Node) :
    retokenAll f ns = ns.map (retoken f) := by
  induction ns with
  | nil => rfl
  | cons n ns ih =>
      rw [List.map_cons, ← ih]
      rfl

theorem flatMap_retokenPairs (f : Token → Token) (ps : List (Node × Node)) :
    ((retokenPairs f ps).flatMap fun (key, value) => [key, value]) =
      (ps.flatMap fun (key, value) => [key, value]).map (retoken f) := by
  induction ps with
  | nil => rfl
  | cons p ps ih =>
      rw [List.flatMap_cons, List.map_append, ← ih]
      rfl

/-- With other tokens a node keeps its rule and its scalar, and its children get them. -/
theorem retoken_shape (f : Token → Token) (n : Node) :
    (n.retoken f).kind = n.kind ∧ (n.retoken f).scalar = n.scalar ∧
      (n.retoken f).children = n.children.map (retoken f) := by
  cases n with
  | program xs | block t xs | array t xs => exact ⟨rfl, rfl, retokenAll_eq_map f xs⟩
  | ret t value => cases value <;> exact ⟨rfl, rfl, rfl⟩
  | hash t ps => exact ⟨rfl, rfl, flatMap_retokenPairs f ps⟩
  | conditional t c n e => cases e <;> exact ⟨rfl, rfl, rfl⟩
  | function t xs n =>
      refine ⟨rfl, rfl, ?_⟩
      simp [retoken, children]
  | call t g xs => exact ⟨rfl, rfl, congrArg (retoken f g :: ·) (retokenAll_eq_map f xs)⟩
  | _ => exact ⟨rfl, rfl, rfl⟩

theorem unplaced_retoken (f : Token → Token) (n : Node) :
    (n.retoken f).outline.unplaced = n.outline.unplaced := by
  induction n using children_induction with
  | step n ih =>
      obtain ⟨hkind, hscalar, hchildren⟩ := retoken_shape f n
      rw [unplaced_outline, unplaced_outline, hkind, hscalar, hchildren, List.map_map]
      exact congrArg _ (List.map_congr_left ih)

/-- Outlines are faithful. Two trees, of whatever rules, are structurally equal if and only if
their outlines without positions are equal. So structural equality is an equivalence relation,
and it makes no difference to it which tokens the nodes of a tree have, at any depth. -/
theorem outline_faithful :
    (∀ a b : Node, a.outline.unplaced = b.outline.unplaced ↔ a.same b = true) ∧
      Equivalence (fun a b : Node => a.same b = true) ∧
      ∀ (f g : Token → Token) (a b : Node),
        (a.retoken f).same (b.retoken g) = a.same b := by
  refine ⟨unplaced_eq_iff_same, ⟨?_, ?_, ?_⟩, ?_⟩
  · intro a
    exact (unplaced_eq_iff_same a a).mp rfl
  · intro a b h
    rw [← unplaced_eq_iff_same] at h ⊢
    exact h.symm
  · intro a b c hab hbc
    rw [← unplaced_eq_iff_same] at hab hbc ⊢
    exact hab.trans hbc
  · intro f g a b
    rw [Bool.eq_iff_iff, ← unplaced_eq_iff_same, ← unplaced_eq_iff_same, unplaced_retoken,
      unplaced_retoken]

end Node

end Scriptlet
