import Scriptlet.Proofs.Grammar.Phrase
import Scriptlet.Tree.Printer

/-!
Outlines of derived trees. The outline of a node is made from those of its
children, so a rule occurs in a tree if it is the rule of the root or occurs below
it; and every node of a tree that the grammar derives follows a rule.
-/

namespace Scriptlet

namespace Node

theorem outlineAll_eq_map (ns : List Node) : outlineAll ns = ns.map outline := by
  induction ns with
  | nil => rfl
  | cons n ns ih =>
      rw [List.map_cons, ← ih]
      rfl

theorem outlinePairs_eq_map (ps : List (Node × Node)) :
    outlinePairs ps = (ps.flatMap fun (key, value) => [key, value]).map outline := by
  induction ps with
  | nil => rfl
  | cons p ps ih =>
      rw [List.flatMap_cons, List.map_append, ← ih]
      rfl

/-- The outline of a node is made from those of the nodes directly below it. -/
theorem outline_eq (n : Node) : n.outline = n.outlineWith (n.children.map outline) := by
  cases n with
  | program statements => exact congrArg (outlineWith _) (outlineAll_eq_map _)
  | block t statements => exact congrArg (outlineWith _) (outlineAll_eq_map _)
  | array t elements => exact congrArg (outlineWith _) (outlineAll_eq_map _)
  | hash t pairs => exact congrArg (outlineWith _) (outlinePairs_eq_map _)
  | call t callee arguments =>
      exact congrArg (fun os => outlineWith _ (callee.outline :: os)) (outlineAll_eq_map _)
  | function t parameters body =>
      rw [children, List.map_append, List.map_map]
      rfl
  | ret t value => cases value <;> rfl
  | conditional t condition consequence alternative => cases alternative <;> rfl
  | _ => rfl

end Node

theorem Outline.mentionsAny_eq_any (kind : String) (os : List Outline) :
    mentionsAny kind os = os.any (·.mentions kind) := by
  induction os with
  | nil => rfl
  | cons o os ih =>
      rw [List.any_cons, ← ih]
      rfl

/-- Every node of the tree follows a rule of the language. -/
def Node.Ruled (n : Node) : Prop :=
  n.outline.mentions "node" = false

theorem Node.ruled_of_children {n : Node} (hkind : n.kind ≠ "node")
    (h : ∀ child ∈ n.children, child.Ruled) : n.Ruled := by
  have hown : (n.kind == "node") = false := beq_eq_false_iff_ne.mpr hkind
  have hbelow : (n.children.map outline).any (·.mentions "node") = false := by
    rw [List.any_map, List.any_eq_false]
    intro child hchild
    have hchild : child.outline.mentions "node" = false := h child hchild
    simp [hchild]
  unfold Ruled
  rw [outline_eq, outlineWith, Outline.mentions, hown, Outline.mentionsAny_eq_any, hbelow]
  rfl

/-- A tree that follows the rules has a canonical text. -/
theorem Node.Ruled.canonical?_eq {n : Node} (h : n.Ruled) : n.canonical? = some n.render := by
  have hmentions : n.outline.mentions "node" = false := h
  simp [canonical?, hmentions]

/-- What a phrase derives follows the rules throughout. -/
def Phrase.Ruled : Phrase → Prop
  | .expr _ tree | .block tree | .statement tree => tree.Ruled
  | .items trees | .itemsTail trees | .statements trees => ∀ tree ∈ trees, tree.Ruled
  | .pairs entries | .pairsTail entries =>
    ∀ entry ∈ entries, entry.1.Ruled ∧ entry.2.Ruled
  | .names _ | .namesTail _ => True

theorem Derives.ruled {phrase : Phrase} {ts : List Token} (h : Derives phrase ts) :
    phrase.Ruled := by
  have hident (id : Ident) : (Node.ident id).Ruled :=
    Node.ruled_of_children (by simp [Node.kind]) (by simp [Node.children])
  induction h with
  | tighter _ _ ih | grouped _ _ _ ih => exact ih
  | ident _ => exact hident _
  | integer _ _ _ | text _ | boolean _ =>
      exact Node.ruled_of_children (by simp [Node.kind]) (by simp [Node.children])
  | binary _ _ _ ihleft ihright =>
      apply Node.ruled_of_children (by simp [Node.kind])
      simpa [Node.children] using ⟨ihleft, ihright⟩
  | unary _ _ ih =>
      apply Node.ruled_of_children (by simp [Node.kind])
      simpa [Node.children, Phrase.Ruled] using ih
  | call _ _ _ _ ihcallee ih =>
      apply Node.ruled_of_children (by simp [Node.kind])
      simpa [Node.children] using ⟨ihcallee, ih⟩
  | index _ _ _ _ ihcollection ih =>
      apply Node.ruled_of_children (by simp [Node.kind])
      simpa [Node.children] using ⟨ihcollection, ih⟩
  | conditional _ _ _ _ _ ihcondition ihconsequence =>
      apply Node.ruled_of_children (by simp [Node.kind])
      simpa [Node.children] using ⟨ihcondition, ihconsequence⟩
  | alternative _ _ _ _ _ _ _ ihcondition ihconsequence ihalternative =>
      apply Node.ruled_of_children (by simp [Node.kind])
      simpa [Node.children] using ⟨ihcondition, ihconsequence, ihalternative⟩
  | function _ _ _ _ _ _ ihbody =>
      apply Node.ruled_of_children (by simp [Node.kind])
      intro child hchild
      simp only [Node.children, List.mem_append, List.mem_map, List.mem_singleton] at hchild
      rcases hchild with ⟨id, _, rfl⟩ | rfl
      · exact hident id
      · exact ihbody
  | array _ _ _ ih | block _ _ _ ih =>
      exact Node.ruled_of_children (by simp [Node.kind]) ih
  | hash _ _ _ ih =>
      apply Node.ruled_of_children (by simp [Node.kind])
      intro child hchild
      obtain ⟨entry, hentry, hmem⟩ := List.mem_flatMap.mp hchild
      rcases List.mem_cons.mp hmem with rfl | hvalue
      · exact (ih entry hentry).1
      · obtain rfl := List.mem_singleton.mp hvalue
        exact (ih entry hentry).2
  | items _ _ ihfirst ihtail | itemsNext _ _ _ ihfirst ihtail
  | terminated _ _ _ ihfirst ihtail | unterminated _ _ _ ihfirst ihtail =>
      intro tree htree
      rcases List.mem_cons.mp htree with rfl | hmem
      · exact ihfirst
      · exact ihtail tree hmem
  | pairs _ _ _ _ ihkey ihvalue ihtail =>
      intro entry hentry
      rcases List.mem_cons.mp hentry with rfl | hmem
      · exact ⟨ihkey, ihvalue⟩
      · exact ihtail entry hmem
  | pairsNext _ _ _ ih => exact ih
  | binding _ _ _ _ ih =>
      apply Node.ruled_of_children (by simp [Node.kind])
      simpa [Node.children, hident, Phrase.Ruled] using ih
  | ret _ _ ih | expression _ ih =>
      apply Node.ruled_of_children (by simp [Node.kind])
      simpa [Node.children, Phrase.Ruled] using ih
  | bareReturn _ => exact Node.ruled_of_children (by simp [Node.kind]) (by simp [Node.children])
  | noNames | names | namesEnd | namesNext => trivial
  | noItems | itemsEnd | noPairs | pairsEnd | noStatements => simp [Phrase.Ruled]

end Scriptlet
