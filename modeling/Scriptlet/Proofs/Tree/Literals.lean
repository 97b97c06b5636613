import Scriptlet.Proofs.Print.RoundTrip
import Scriptlet.Proofs.Tree.Discipline

/-!
Integer literals. The parser checks only that a literal is not too large; that it is not
negative either comes from the lexer, which reads nothing but digits as a number. So all
integers in a tree that was parsed from a text lie in the 64-bit range.
-/

namespace Scriptlet

def Int64.InRange (n : Int) : Prop :=
  Int64.minimum ≤ n ∧ n ≤ Int64.maximum

theorem Int64.inRange_of_nonneg {n : Int} (hnonneg : 0 ≤ n) (hmaximum : n ≤ Int64.maximum) :
    Int64.InRange n := by
  have hminimum : Int64.minimum ≤ 0 := by decide
  exact ⟨Int.le_trans hminimum hnonneg, hmaximum⟩

/-- Whatever is wrapped lies in the range. -/
theorem Int64.inRange_wrap (n : Int) : Int64.InRange (Int64.wrap n) := by
  unfold InRange wrap minimum maximum modulus
  omega

namespace Node

def integer? : Node → Option Int
  | .integer _ n => some n
  | _ => none

/-- The integer literals of a tree lie in the 64-bit range. -/
def Ranged (node : Node) : Prop :=
  node.Every fun n => ∀ k ∈ n.integer?, Int64.InRange k

theorem ranged_of_children {node : Node} (hhere : node.integer? = none)
    (h : ∀ child ∈ node.children, child.Ranged) : node.Ranged := by
  apply Every.intro _ h
  intro k hk
  rw [hhere] at hk
  cases hk

theorem ranged_of_leaf {node : Node} (hhere : node.integer? = none) (h : node.children = []) :
    node.Ranged := by
  apply ranged_of_children hhere
  rw [h]
  exact List.forall_mem_nil _

theorem ranged_integer {t : Token} {n : Int} (h : Int64.InRange n) :
    (Node.integer t n).Ranged := by
  constructor
  · rintro _ ⟨⟩
    exact h
  · exact List.forall_mem_nil _

end Node

/-- The integer literals that a phrase derives lie in the 64-bit range. -/
def Phrase.Ranged : Phrase → Prop
  | .expr _ tree | .block tree | .statement tree => tree.Ranged
  | .items trees | .itemsTail trees | .statements trees => ∀ tree ∈ trees, tree.Ranged
  | .pairs entries | .pairsTail entries =>
    ∀ entry ∈ entries, entry.1.Ranged ∧ entry.2.Ranged
  | .names _ | .namesTail _ => True

/-- A number that the grammar admits is no larger than the largest integer, and none is negative. -/
theorem Derives.ranged {table : AliasTable} {phrase : Phrase} {ts : List Token}
    (h : Derives phrase ts) (hlegible : ∀ t ∈ ts, t.Legible table) : phrase.Ranged := by
  have hident (id : Ident) : (Node.ident id).Ranged := Node.ranged_of_leaf rfl rfl
  induction h with
  | tighter _ _ ih => exact ih hlegible
  | grouped _ _ _ ih =>
      rw [List.forall_mem_cons, List.forall_mem_append] at hlegible
      exact ih hlegible.2.1
  | ident _ => exact hident _
  | @integer t n hkind hvalue hmaximum =>
      rw [List.forall_mem_singleton] at hlegible
      have hnonneg : 0 ≤ n := Numeral.integer?_nonneg hvalue (hlegible.number hkind)
      exact Node.ranged_integer (Int64.inRange_of_nonneg hnonneg hmaximum)
  | text _ | boolean _ | bareReturn _ => exact Node.ranged_of_leaf rfl rfl
  | binary _ _ _ ihleft ihright =>
      rw [List.forall_mem_append, List.forall_mem_cons] at hlegible
      obtain ⟨hleft, -, hright⟩ := hlegible
      apply Node.ranged_of_children rfl
      simpa [Node.children] using ⟨ihleft hleft, ihright hright⟩
  | unary _ _ ih =>
      rw [List.forall_mem_cons] at hlegible
      apply Node.ranged_of_children rfl
      simpa [Node.children, Phrase.Ranged] using ih hlegible.2
  | call _ _ _ _ ihcallee ih =>
      rw [List.forall_mem_append, List.forall_mem_cons, List.forall_mem_append] at hlegible
      obtain ⟨hcallee, -, harguments, -⟩ := hlegible
      apply Node.ranged_of_children rfl
      exact List.forall_mem_cons.mpr ⟨ihcallee hcallee, ih harguments⟩
  | index _ _ _ _ ihcollection ih =>
      rw [List.forall_mem_append, List.forall_mem_cons, List.forall_mem_append] at hlegible
      obtain ⟨hcollection, -, hplace, -⟩ := hlegible
      apply Node.ranged_of_children rfl
      simpa [Node.children] using ⟨ihcollection hcollection, ih hplace⟩
  | conditional _ _ _ _ _ ihcondition ihconsequence =>
      rw [List.forall_mem_cons, List.forall_mem_cons, List.forall_mem_append,
        List.forall_mem_cons] at hlegible
      obtain ⟨-, -, hcondition, -, hconsequence⟩ := hlegible
      apply Node.ranged_of_children rfl
      simpa [Node.children] using ⟨ihcondition hcondition, ihconsequence hconsequence⟩
  | alternative _ _ _ _ _ _ _ ihcondition ihconsequence ihalternative =>
      rw [List.forall_mem_cons, List.forall_mem_cons, List.forall_mem_append,
        List.forall_mem_cons, List.forall_mem_append, List.forall_mem_cons] at hlegible
      obtain ⟨-, -, hcondition, -, hconsequence, -, halternative⟩ := hlegible
      apply Node.ranged_of_children rfl
      simpa [Node.children] using ⟨ihcondition hcondition, ihconsequence hconsequence,
        ihalternative halternative⟩
  | function _ _ _ _ _ _ ihbody =>
      rw [List.forall_mem_cons, List.forall_mem_cons, List.forall_mem_append,
        List.forall_mem_cons] at hlegible
      obtain ⟨-, -, -, -, hbody⟩ := hlegible
      apply Node.ranged_of_children rfl
      intro child hchild
      simp only [Node.children, List.mem_append, List.mem_map, List.mem_singleton] at hchild
      rcases hchild with ⟨id, _, rfl⟩ | rfl
      · exact hident id
      · exact ihbody hbody
  | array _ _ _ ih | block _ _ _ ih =>
      rw [List.forall_mem_cons, List.forall_mem_append] at hlegible
      exact Node.ranged_of_children rfl (ih hlegible.2.1)
  | hash _ _ _ ih =>
      rw [List.forall_mem_cons, List.forall_mem_append] at hlegible
      apply Node.ranged_of_children rfl
      intro child hchild
      obtain ⟨entry, hentry, hmem⟩ := List.mem_flatMap.mp hchild
      rcases List.mem_pair.mp hmem with rfl | rfl
      · exact (ih hlegible.2.1 entry hentry).1
      · exact (ih hlegible.2.1 entry hentry).2
  | items _ _ ihfirst ihtail | unterminated _ _ _ ihfirst ihtail =>
      rw [List.forall_mem_append] at hlegible
      exact List.forall_mem_cons.mpr ⟨ihfirst hlegible.1, ihtail hlegible.2⟩
  | itemsNext _ _ _ ihfirst ihtail =>
      rw [List.forall_mem_cons, List.forall_mem_append] at hlegible
      exact List.forall_mem_cons.mpr ⟨ihfirst hlegible.2.1, ihtail hlegible.2.2⟩
  | terminated _ _ _ ihfirst ihtail =>
      rw [List.forall_mem_append, List.forall_mem_cons] at hlegible
      exact List.forall_mem_cons.mpr ⟨ihfirst hlegible.1, ihtail hlegible.2.2⟩
  | pairs _ _ _ _ ihkey ihvalue ihtail =>
      rw [List.forall_mem_append, List.forall_mem_cons, List.forall_mem_append] at hlegible
      obtain ⟨hkey, -, hvalue, htail⟩ := hlegible
      exact List.forall_mem_cons.mpr ⟨⟨ihkey hkey, ihvalue hvalue⟩, ihtail htail⟩
  | pairsNext _ _ _ ih =>
      rw [List.forall_mem_cons] at hlegible
      exact ih hlegible.2
  | binding _ _ _ _ ih =>
      rw [List.forall_mem_cons, List.forall_mem_cons, List.forall_mem_cons] at hlegible
      apply Node.ranged_of_children rfl
      simpa [Node.children, hident, Phrase.Ranged] using ih hlegible.2.2.2
  | ret _ _ ih =>
      rw [List.forall_mem_cons] at hlegible
      apply Node.ranged_of_children rfl
      simpa [Node.children, Phrase.Ranged] using ih hlegible.2
  | expression _ ih =>
      apply Node.ranged_of_children rfl
      simpa [Node.children, Phrase.Ranged] using ih hlegible
  | noNames | names | namesEnd | namesNext => trivial
  | noItems | itemsEnd | noPairs | pairsEnd | noStatements => exact List.forall_mem_nil _

/-- The integer literals of a program that was parsed from a text, with or without diagnostics,
lie in the 64-bit range. -/
theorem Reading.ranged {nesting : Nat} {aliases : AliasTable} {text : String} {program : Node}
    {diagnostics : List Diagnostic}
    (h : ofText nesting aliases text = .parsed program diagnostics) : program.Ranged := by
  obtain ⟨trees, rfl, htrees⟩ := statements_derive (Cursor.holds_ofText aliases text) h
  apply Node.ranged_of_children rfl
  intro tree htree
  obtain ⟨ts, hts, hlegible⟩ := htrees tree htree
  exact hts.ranged hlegible

end Scriptlet
