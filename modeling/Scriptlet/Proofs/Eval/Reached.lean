import Scriptlet.Proofs.Eval.Isolation
import Scriptlet.Proofs.Scope.Outward

/-!
The machines that evaluation can come to. A scope may hold a function that captured it, and so be
got at from itself, but the scope around it is always an older one: a call makes its scope inside
one that was there when the function was made. So in every machine that can be reached, going
outward from a scope ends, whatever its functions hold.
-/

namespace Scriptlet

namespace Machine

/-- What any trees, evaluated in any of the scopes that are there and however deep they are
followed, can make of a machine in which there was nothing. Between them scopes may be made and
names bound from outside. -/
inductive Reached : Machine → Prop where
  | empty : Reached .empty
  | scope {m : Machine} {outer : Option ScopeId} (h : Reached m)
      (houter : ∀ o ∈ outer, o < m.heap.scopes.size) :
      Reached { m with heap := (m.heap.enclose outer).2 }
  | bound {m : Machine} {v : Value} (h : Reached m) (hv : m.Has .counting v) (scope : ScopeId)
      (name : String) : Reached { m with heap := m.heap.bind scope name v }
  | evaluated {m : Machine} {scope : ScopeId} (h : Reached m)
      (hscope : scope < m.heap.scopes.size) (levels : Nat) (node : Node) :
      Reached (evaluate levels scope node m).machine

theorem regular_empty {law : Law} : Machine.empty.Regular law := by
  constructor
  · rintro _ o i ⟨s, hs, _⟩
    cases hs
  · rintro v ⟨s, hs, _⟩
    exact absurd hs (Array.not_mem_empty s)

theorem Regular.alone {law : Law} {m : Machine} (h : m.Regular law) :
    ({ m with heap := (m.heap.enclose none).2 } : Machine).Regular law := by
  have hgrown : m.Grown { m with heap := (m.heap.enclose none).2 } :=
    ⟨Nat.le_refl _, by simp [Heap.enclose]⟩
  constructor
  · intro hcounted o i henclosed
    rcases Heap.encloses_enclose henclosed with hold | ⟨_, heq⟩
    · exact h.outer_lt hcounted hold
    · cases heq
  · intro u hstored
    exact (h.stored (Heap.stores_enclose hstored)).mono hgrown

theorem Reached.regular {m : Machine} (h : m.Reached) : m.Regular .counting := by
  induction h with
  | empty => exact regular_empty
  | @scope m outer _ houter ih =>
      cases outer with
      | none => exact ih.alone
      | some o => exact ih.enclose fun _ => houter o rfl
  | bound _ hv scope name ih => exact ih.bind scope name hv
  | evaluated _ hscope levels node ih =>
      exact (evaluate_keeps .counting levels _ node _ trivial ih fun _ => hscope).2.1

/-- In every machine that can be reached each scope lies inside an older one, so that going outward
ends. A name is listed for a scope exactly if it stands for something there, namely for what the
first scope on the way outward that holds it has bound it to; the names listed are in order and
different. Binding a name in a scope makes a difference to that name only, and only where one
comes to this scope before any other that holds the name. -/
theorem reached_scopes_look_outward {m : Machine} (hm : m.Reached) :
    (∀ {outer inner : ScopeId}, m.heap.Encloses outer inner → outer < inner) ∧
    WellFounded m.heap.Encloses ∧
    ∀ scope < m.heap.scopes.size, ∃ chain,
      (m.heap.Outward scope chain ∧ ∀ others, m.heap.Outward scope others → others = chain) ∧
      (∀ name, name ∈ m.heap.names scope ↔ m.heap.get? scope name ≠ none) ∧
      (∀ name value, m.heap.get? scope name = some value ↔ ∃ before holder after,
        chain = before ++ holder :: after ∧ m.heap.own? holder name = some value ∧
          ∀ i ∈ before, m.heap.own? i name = none) ∧
      (m.heap.names scope).Pairwise (· < ·) ∧
      ∀ target name value other,
        (other = name ∧ m.heap.Exposes name target scope →
          (m.heap.bind target name value).get? scope other = some value) ∧
        (¬ (other = name ∧ m.heap.Exposes name target scope) →
          (m.heap.bind target name value).get? scope other = m.heap.get? scope other) := by
  have houter {o i : ScopeId} : m.heap.Encloses o i → o < i := hm.regular.outer_lt trivial
  refine ⟨houter, Heap.wellFounded_encloses houter, ?_⟩
  intro scope hscope
  have hchain : m.heap.Outward scope (m.heap.chain scope) := Heap.outward_chain houter hscope
  refine ⟨_, ⟨hchain, fun _ => hchain.unique⟩, ?_, ?_, m.heap.pairwise_names scope, ?_⟩
  · intro name
    rw [Heap.mem_names_iff, Option.isSome_iff_ne_none]
  · intro name value
    exact Heap.get?_eq_some_iff rfl
  · intro target name value other
    constructor
    · rintro ⟨rfl, hexposes⟩
      exact Heap.get?_bind_of_exposes hchain hexposes
    · intro hnot
      by_cases hother : other = name
      · subst hother
        exact Heap.get?_bind_of_not_exposes hchain fun hexposes => hnot ⟨rfl, hexposes⟩
      · exact Heap.get?_bind_of_ne hother

/-- The scope of a call lies inside that of the program. It has a name of its own, which hides one
that is bound outside later, and it sees `make`, which is bound anew there. -/
theorem reached_scopes_look_outward_adder :
    withAdder.Reached ∧ withAdder.heap.Encloses 0 1 ∧
      "make" ∈ withAdder.heap.names 1 ∧
      (withAdder.heap.bind 0 "x" .null).get? 1 "x" = some (.integer 2) ∧
      (withAdder.heap.bind 0 "make" .null).get? 1 "make" = some .null := by
  have hmade : Reached Machine.withScope.2 := @Reached.scope _ none .empty nofun
  have hreached : withAdder.Reached := hmade.evaluated Nat.zero_lt_one 9 makingAdder
  have hout : withAdder.heap.Outward 1 [1, 0] := .next rfl rfl (.last rfl rfl)
  obtain ⟨_, _, hscopes⟩ := reached_scopes_look_outward hreached
  obtain ⟨chain, -, hnames, -, -, hbind⟩ := hscopes 1 Nat.one_lt_two
  have hmake : withAdder.heap.get? 1 "make" ≠ none := by
    obtain ⟨made, hmade⟩ : ∃ v, withAdder.heap.get? 1 "make" = some v := ⟨_, rfl⟩
    simp [hmade]
  refine ⟨hreached, ⟨_, rfl, rfl⟩, (hnames "make").mpr hmake, ?_, ?_⟩
  · refine ((hbind 0 "x" .null "x").2 ?_).trans rfl
    rintro ⟨-, before, after, hpath, hnone⟩
    have hsplit : before ++ 0 :: after = [1, 0] := hout.unique hpath
    cases before with
    | nil => cases hsplit
    | cons first before =>
        obtain rfl : first = 1 := (List.cons.inj hsplit).1
        have hheld : withAdder.heap.own? 1 "x" = some (.integer 2) := rfl
        rw [hnone 1 List.mem_cons_self] at hheld
        cases hheld
  · exact (hbind 0 "make" .null "make").1 ⟨rfl, [1], [], hout, by
      intro i hi
      rw [List.mem_singleton.mp hi]
      rfl⟩

end Machine

end Scriptlet
