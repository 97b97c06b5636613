import Scriptlet.Scope.Heap

/-!
What scopes hold. A name that is looked up stands for something that is bound in a
scope; binding adds the one value that is bound, and a new scope adds nothing. Neither
moves a scope to another place.
-/

namespace Scriptlet

theorem Scope.mem_bindGo {name : String} {v : Value} {bindings : List (String × Value)}
    {binding : String × Value} (h : binding ∈ Scope.bind.go name v bindings) :
    binding = (name, v) ∨ binding ∈ bindings := by
  induction bindings with
  | nil => exact .inl (List.mem_singleton.mp h)
  | cons first bindings ih =>
      unfold Scope.bind.go at h
      split at h
      · rcases List.mem_cons.mp h with rfl | hold
        · exact .inl rfl
        · exact .inr (List.mem_cons_of_mem _ hold)
      · rcases List.mem_cons.mp h with rfl | hrest
        · exact .inr List.mem_cons_self
        · exact (ih hrest).imp_right (List.mem_cons_of_mem _)

namespace Heap

/-- The value is bound in some scope. -/
def Stores (h : Heap) (v : Value) : Prop :=
  ∃ s ∈ h.scopes, ∃ name, (name, v) ∈ s.bindings

/-- A scope lies directly inside another. -/
def Encloses (h : Heap) (outer inner : ScopeId) : Prop :=
  ∃ s, h.scopes[inner]? = some s ∧ s.outer = some outer

variable {h : Heap} {v u : Value} {name : String} {i o scope : ScopeId}

/-- What a name stands for is bound in some scope. -/
theorem stores_of_get? (hfound : h.get? scope name = some v) : h.Stores v := by
  obtain ⟨i, _, hown⟩ := List.exists_of_findSome?_eq_some hfound
  obtain ⟨s, hs, hlookup⟩ := Option.bind_eq_some_iff.mp hown
  obtain ⟨before, after, hbindings, _⟩ := List.lookup_eq_some_iff.mp hlookup
  have hbinding : (name, v) ∈ s.bindings := by
    rw [hbindings]
    simp
  exact ⟨s, Array.mem_of_getElem? hs, name, hbinding⟩

/-- After a binding there is nothing new but the value that was bound. -/
theorem stores_bind (hstored : (h.bind scope name v).Stores u) : u = v ∨ h.Stores u := by
  obtain ⟨s, hs, other, hbinding⟩ := hstored
  obtain ⟨i, hi, rfl⟩ := Array.mem_iff_getElem.mp hs
  simp only [bind, Array.size_modify] at hi
  simp only [bind, Array.getElem_modify] at hbinding
  split at hbinding
  · rcases Scope.mem_bindGo hbinding with heq | hold
    · exact .inl (Prod.mk.inj heq).2
    · exact .inr ⟨_, Array.getElem_mem hi, other, hold⟩
  · exact .inr ⟨_, Array.getElem_mem hi, other, hbinding⟩

/-- A new scope holds nothing. -/
theorem stores_enclose {outer : Option ScopeId}
    (hstored : (h.enclose outer).2.Stores u) : h.Stores u := by
  obtain ⟨s, hs, other, hbinding⟩ := hstored
  rcases Array.mem_push.mp hs with hold | rfl
  · exact ⟨s, hold, other, hbinding⟩
  · cases hbinding

theorem encloses_bind (henclosed : (h.bind scope name v).Encloses o i) : h.Encloses o i := by
  obtain ⟨s, hs, houter⟩ := henclosed
  simp only [bind, Array.getElem?_modify] at hs
  split at hs
  · obtain ⟨t, ht, rfl⟩ := Option.map_eq_some_iff.mp hs
    exact ⟨t, ht, houter⟩
  · exact ⟨s, hs, houter⟩

/-- It lies in the scope it was made in, and no other link is new. -/
theorem encloses_enclose {outer : Option ScopeId}
    (henclosed : (h.enclose outer).2.Encloses o i) :
    h.Encloses o i ∨ i = h.scopes.size ∧ outer = some o := by
  obtain ⟨s, hs, houter⟩ := henclosed
  simp only [enclose, Array.getElem?_push] at hs
  split at hs
  next hi =>
    cases hs
    exact .inr ⟨hi, houter⟩
  next => exact .inl ⟨s, hs, houter⟩

end Heap

end Scriptlet
