import Scriptlet.Proofs.Eval.Alike

/-!
What has been printed and noted makes no difference. Machines with the same scopes that give out
the same numbers next are alike if every number and every scope stands for itself, and machines
that are alike in this way have the same scopes.
-/

namespace Scriptlet

/-- Every number and every scope stands for itself. -/
def Pairing.same (printed printed' : Array String) : Pairing where
  number := Eq
  scope := Eq
  printed := printed
  printed' := printed'
  number_iff := by
    rintro _ _ _ _ rfl rfl
    exact Iff.rfl
  scope_iff := by
    rintro _ _ _ _ rfl rfl
    exact Iff.rfl

variable {printed printed' : Array String}

theorem eq_of_rel {α : Type} {r : α → α → Prop} {a b : Option α} (h : Option.Rel r a b)
    (heq : ∀ x y, r x y → x = y) : a = b := by
  cases h with
  | none => rfl
  | some hvalue => exact congrArg some (heq _ _ hvalue)

theorem eq_of_forall₂ {α : Type} {r : α → α → Prop} {xs ys : List α}
    (h : List.Forall₂ r xs ys) (heq : ∀ x ∈ xs, ∀ y, r x y → x = y) : xs = ys := by
  induction h with
  | nil => rfl
  | cons hfirst _ ih =>
      rw [List.forall_mem_cons] at heq
      rw [heq.1 _ hfirst, ih heq.2]

namespace Value

theorem Keyed.eq {κ : Type} {r : Value → Value → Prop} {p q : κ × Value} (h : Keyed r p q)
    (heq : ∀ w, r p.2 w → p.2 = w) : p = q := by
  cases h with
  | mk key hvalue => exact congrArg (Prod.mk key) (heq _ hvalue)

theorem alike_same_self (v : Value) : Alike (.same printed printed') v v := by
  induction v using parts_induction with
  | step v ih =>
      cases v with
      | array id elements => exact .array rfl (List.forall₂_same.mpr ih)
      | hash id pairs =>
          apply Alike.hash rfl
          rw [List.forall₂_same]
          exact fun pair hpair => .mk pair.1 (ih pair.2 (mem_parts_hash hpair))
      | function id parameters body captured => exact .function parameters body rfl rfl
      | returned id value => exact .returned rfl (ih value (List.mem_singleton.mpr rfl))
      | _ => constructor

/-- Paired with themselves, values that are alike are equal. -/
theorem eq_of_alike_same {v w : Value} (h : Alike (.same printed printed') v w) : v = w := by
  induction v using parts_induction generalizing w with
  | step v ih =>
      cases h with
      | array hid helements =>
          have hsame := eq_of_forall₂ helements fun u hu w hw => ih u hu hw
          rw [show _ = _ from hid, hsame]
      | hash hid hpairs =>
          have hsame := eq_of_forall₂ hpairs fun pair hpair other hkeyed =>
            hkeyed.eq fun w hw => ih pair.2 (mem_parts_hash hpair) hw
          rw [show _ = _ from hid, hsame]
      | function parameters body hid hscope =>
          rw [show _ = _ from hid, show _ = _ from hscope]
      | returned hid hvalue =>
          rw [show _ = _ from hid, ih _ (List.mem_singleton.mpr rfl) hvalue]
      | _ => rfl

end Value

namespace Scope

theorem alike_same_self (s : Scope) : Alike (.same printed printed') s s := by
  constructor
  · cases s.outer with
    | none => exact .none
    | some outer => exact .some rfl
  · rw [List.forall₂_same]
    exact fun binding _ => .mk binding.1 (Value.alike_same_self binding.2)

theorem eq_of_alike_same {s t : Scope} (h : Alike (.same printed printed') s t) : s = t := by
  obtain ⟨bindings, outer⟩ := s
  obtain ⟨bindings', outer'⟩ := t
  have hbindings : bindings = bindings' :=
    eq_of_forall₂ h.bindings fun _ _ _ hkeyed => hkeyed.eq fun _ hw => Value.eq_of_alike_same hw
  have houter : outer = outer' := eq_of_rel h.outer fun _ _ heq => heq
  rw [hbindings, houter]

end Scope

namespace Machine

/-- The same scopes, and the same number next. -/
structure Same (m n : Machine) : Prop where
  heap : m.heap = n.heap
  nextId : m.nextId = n.nextId

variable {m n : Machine}

/-- Machines that differ in what was printed and noted are alike under the pairing of everything
with itself. -/
theorem Same.alike (h : m.Same n) : m.Alike (.same m.printed n.printed) n where
  numbers k := congrArg (· + k) h.nextId
  fresh k := by rw [h.heap]; rfl
  scopes {c d} hscope := by
    rw [h.heap, show c = d from hscope]
    cases n.heap.scopes[d]? with
    | none => exact .none
    | some s => exact .some (Scope.alike_same_self s)
  printed := ⟨#[], by simp [Pairing.same], by simp [Pairing.same]⟩

theorem Alike.same (h : m.Alike (.same printed printed') n) : m.Same n := by
  have hscopes : m.heap.scopes = n.heap.scopes := by
    apply Array.ext_getElem?
    intro i
    exact eq_of_rel (h.scopes (show i = i from rfl)) fun _ _ => Scope.eq_of_alike_same
  exact ⟨congrArg Heap.mk hscopes, h.numbers 0⟩

end Machine

/-- Evaluation does the same to the scopes whatever has been printed or noted. -/
theorem evaluate_same {m n : Machine} (h : m.Same n) (levels : Nat) (scope : ScopeId)
    (node : Node) :
    (evaluate levels scope node m).machine.Same (evaluate levels scope node n).machine := by
  have hscope : (Pairing.same m.printed n.printed).scope scope scope := rfl
  have hruns := evaluate_alike levels hscope node m n h.alike
  generalize evaluate levels scope node m = outcome at hruns ⊢
  generalize evaluate levels scope node n = other at hruns ⊢
  cases hruns with
  | done _ hafter | broken _ hafter | tooDeep hafter => exact hafter.same

end Scriptlet
