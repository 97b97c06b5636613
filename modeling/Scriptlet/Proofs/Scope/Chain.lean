import Mathlib.Data.Finset.Card
import Mathlib.Data.Finset.Range
import Scriptlet.Scope.Heap

/-!
Looking a name up, told without the bound on the length of a chain. Going outward for as
many scopes as there are finds whatever going further would find: each scope more that
is tried must let a further scope see the name, and there are no more scopes than that.
So what a name stands for does not depend on scopes that lie off the chain, not even
through their number.
-/

namespace Scriptlet.Heap

variable {h : Heap} {name : String}

/-- What a name stands for, seen from a scope, if it is found within so many scopes. -/
def within (h : Heap) (name : String) : Nat → ScopeId → Option Value
  | 0, _ => none
  | n + 1, scope =>
    h.scopes[scope]?.bind fun s => (s.get? name).or (s.outer.bind (h.within name n))

theorem findSome?_chainGo (n : Nat) (scope : ScopeId) :
    (chain.go h n scope).findSome? (h.own? · name) = h.within name n scope := by
  induction n generalizing scope with
  | zero => rfl
  | succ n ih =>
      unfold chain.go within
      cases hscope : h.scopes[scope]? with
      | none => rfl
      | some s =>
          have hown : h.own? scope name = s.get? name := by
            rw [own?, hscope, Option.bind_some]
          cases houter : s.outer with
          | none =>
              simp only [List.findSome?_cons, List.findSome?_nil, hown, houter,
                Option.bind_some, Option.bind_none]
              cases s.get? name <;> rfl
          | some outer =>
              simp only [List.findSome?_cons, hown, houter, Option.bind_some, ih outer]
              cases s.get? name <;> rfl

/-- A chain is no longer than there are scopes, so looking through that many finds every name. -/
theorem get?_eq_within (scope : ScopeId) :
    h.get? scope name = h.within name h.scopes.size scope :=
  findSome?_chainGo _ scope

theorem within_succ_of_some {n : Nat} {scope : ScopeId} {v : Value}
    (hfound : h.within name n scope = some v) : h.within name (n + 1) scope = some v := by
  induction n generalizing scope with
  | zero => cases hfound
  | succ n ih =>
      unfold within at hfound ⊢
      obtain ⟨s, hs, hfound⟩ := Option.bind_eq_some_iff.mp hfound
      rw [hs, Option.bind_some]
      rcases Option.or_eq_some_iff.mp hfound with hown | ⟨hnone, houter⟩
      · rw [hown, Option.some_or]
      · obtain ⟨outer, ho, hrest⟩ := Option.bind_eq_some_iff.mp houter
        rw [hnone, Option.none_or, ho, Option.bind_some]
        exact ih hrest

/-- A name is found only from a scope that is there. -/
theorem within_lt {n : Nat} {scope : ScopeId} (hfound : (h.within name n scope).isSome) :
    scope < h.scopes.size := by
  cases n with
  | zero => cases hfound
  | succ n =>
      unfold within at hfound
      cases hs : h.scopes[scope]? with
      | none =>
          rw [hs] at hfound
          cases hfound
      | some s => exact (Array.getElem?_eq_some_iff.mp hs).1

/-- Where one scope more finds nothing more, no number of scopes does. -/
theorem within_stable {n : Nat} (hstable : h.within name (n + 1) = h.within name n)
    (k : Nat) : h.within name (n + k) = h.within name n := by
  induction k with
  | zero => rfl
  | succ k ih =>
      calc h.within name (n + (k + 1)) = h.within name (n + 1) := by
            funext scope
            show h.within name (n + k + 1) scope = _
            rw [within, within, ih]
        _ = h.within name n := hstable

/-- The scopes from which the name is found within so many scopes. -/
def sighted (h : Heap) (name : String) (n : Nat) : Finset ScopeId :=
  (Finset.range h.scopes.size).filter fun scope => (h.within name n scope).isSome

theorem mem_sighted {n : Nat} {scope : ScopeId} :
    scope ∈ h.sighted name n ↔ (h.within name n scope).isSome := by
  rw [sighted, Finset.mem_filter, Finset.mem_range]
  exact ⟨fun hboth => hboth.2, fun hfound => ⟨within_lt hfound, hfound⟩⟩

/-- As long as one scope more makes a difference, it lets a further scope see the name. -/
theorem within_stable_or_lt (n : Nat) :
    h.within name (n + 1) = h.within name n ∨ n < (h.sighted name (n + 1)).card := by
  by_cases hstable : h.within name (n + 1) = h.within name n
  · exact .inl hstable
  right
  obtain ⟨scope, hne⟩ := Function.ne_iff.mp hstable
  have hbefore : h.within name n scope = none := by
    cases hfound : h.within name n scope with
    | none => rfl
    | some v => exact absurd ((within_succ_of_some hfound).trans hfound.symm) hne
  have hafter : (h.within name (n + 1) scope).isSome := by
    rw [hbefore] at hne
    exact Option.isSome_iff_ne_none.mpr hne
  -- A scope that sees the name within `n` scopes keeps seeing it, and `scope` joins them.
  have hgrows : h.sighted name n ⊂ h.sighted name (n + 1) := by
    rw [Finset.ssubset_iff_of_subset]
    · refine ⟨scope, mem_sighted.mpr hafter, ?_⟩
      rw [mem_sighted, hbefore]
      exact Bool.false_ne_true
    · intro seen hseen
      obtain ⟨v, hv⟩ := Option.isSome_iff_exists.mp (mem_sighted.mp hseen)
      rw [mem_sighted, within_succ_of_some hv]
      rfl
  have hcard := Finset.card_lt_card hgrows
  -- Had the step before made no difference, this one could not have made any.
  cases n with
  | zero => exact Nat.lt_of_le_of_lt (Nat.zero_le _) hcard
  | succ n =>
      rcases within_stable_or_lt n with hearlier | hlt
      · exact absurd (by rw [within_stable hearlier 2, ← within_stable hearlier 1]) hstable
      · exact Nat.lt_of_le_of_lt hlt hcard

/-- Going outward for more scopes than there are finds nothing more. -/
theorem within_size_add (k : Nat) :
    h.within name (h.scopes.size + k) = h.within name h.scopes.size := by
  apply within_stable
  rcases @within_stable_or_lt h name h.scopes.size with hstable | hlt
  · exact hstable
  · have hle := Finset.card_filter_le (Finset.range h.scopes.size)
      fun scope => (h.within name (h.scopes.size + 1) scope).isSome
    rw [Finset.card_range] at hle
    exact absurd hlt (Nat.not_lt.mpr hle)

end Scriptlet.Heap
