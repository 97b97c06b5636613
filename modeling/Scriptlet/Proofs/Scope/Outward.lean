import Mathlib.Data.List.Sort
import Mathlib.Data.String.Basic
import Scriptlet.Proofs.Eval.Footprint
import Scriptlet.Proofs.Scope.Contents

/-!
Going outward from a scope. Where every scope lies inside an older one, going from a scope to the
one around it comes to a scope that lies in no other, so there is one whole chain of scopes for
every scope, and it is the one along which names are looked up and listed. What a name stands for
is bound in the first scope of the chain that holds it. Binding a name in a scope can be noticed
only from where the chain comes to that scope before any other that holds the name.
-/

namespace Scriptlet

theorem Scope.lookup_bindGo_self (name : String) (value : Value)
    (bindings : List (String × Value)) :
    (bind.go name value bindings).lookup name = some value := by
  induction bindings with
  | nil => simp [bind.go]
  | cons binding bindings ih =>
      obtain ⟨first, found⟩ := binding
      unfold bind.go
      split
      next => simp
      next hne =>
        have hother : (name == first) = false := beq_eq_false_iff_ne.mpr (Ne.symm hne)
        rw [List.lookup_cons, hother, ih]

namespace Heap

/-- The scopes that one comes to from a scope, the last of which lies in no other. -/
inductive Outward (h : Heap) : ScopeId → List ScopeId → Prop where
  | last {i : ScopeId} {s : Scope} (hs : h.scopes[i]? = some s) (houter : s.outer = none) :
      Outward h i [i]
  | next {i o : ScopeId} {s : Scope} {rest : List ScopeId} (hs : h.scopes[i]? = some s)
      (houter : s.outer = some o) (hrest : Outward h o rest) : Outward h i (i :: rest)

/-- From the first scope one comes to the target before any other scope that holds the name. -/
def Exposes (h : Heap) (name : String) (target scope : ScopeId) : Prop :=
  ∃ before after, h.Outward scope (before ++ target :: after) ∧
    ∀ i ∈ before, h.own? i name = none

variable {h : Heap} {scope target : ScopeId} {name other : String} {value : Value}

section Chain

variable (houter : ∀ {o i : ScopeId}, h.Encloses o i → o < i)
include houter

/-- Going outward from any scope comes to an end. -/
theorem wellFounded_encloses : WellFounded h.Encloses :=
  Subrelation.wf houter Nat.lt_wfRel.wf

/-- A scope has fewer scopes around it than there are older ones, so that many steps suffice. -/
theorem outward_chainGo {fuel : Nat} (hscope : scope < h.scopes.size) (hfuel : scope < fuel) :
    h.Outward scope (chain.go h fuel scope) := by
  induction fuel generalizing scope with
  | zero => exact absurd hfuel (Nat.not_lt_zero _)
  | succ fuel ih =>
      have hs : h.scopes[scope]? = some h.scopes[scope] := Array.getElem?_eq_getElem hscope
      cases ho : h.scopes[scope].outer with
      | none =>
          simp only [chain.go, hs, ho]
          exact .last hs ho
      | some outer =>
          have hlt : outer < scope := houter ⟨_, hs, ho⟩
          simp only [chain.go, hs, ho]
          exact .next hs ho (ih (hlt.trans hscope) (hlt.trans_le (Nat.le_of_lt_succ hfuel)))

/-- The chain that is computed is one of the links that are there. -/
theorem outward_chain (hscope : scope < h.scopes.size) : h.Outward scope (h.chain scope) :=
  outward_chainGo houter hscope hscope

end Chain

/-- A scope lies in one scope at most, so there is no other way outward. -/
theorem Outward.unique {chain others : List ScopeId} (hchain : h.Outward scope chain)
    (hothers : h.Outward scope others) : others = chain := by
  induction hchain generalizing others with
  | last hs houter =>
      cases hothers with
      | last => rfl
      | next hs' houter' =>
          cases hs.symm.trans hs'
          cases houter.symm.trans houter'
  | next hs houter _ ih =>
      cases hothers with
      | last hs' houter' =>
          cases hs.symm.trans hs'
          cases houter.symm.trans houter'
      | next hs' houter' hrest =>
          cases hs.symm.trans hs'
          cases houter.symm.trans houter'
          rw [ih hrest]

theorem Outward.lt {chain : List ScopeId} (hchain : h.Outward scope chain) {i : ScopeId}
    (hi : i ∈ chain) : i < h.scopes.size := by
  induction hchain with
  | last hs =>
      rw [List.mem_singleton.mp hi]
      exact (Array.getElem?_eq_some_iff.mp hs).1
  | next hs _ _ ih =>
      rcases List.mem_cons.mp hi with rfl | hrest
      · exact (Array.getElem?_eq_some_iff.mp hs).1
      · exact ih hrest

/-- The value is that of the first scope of the chain that holds the name. -/
theorem get?_eq_some_iff {chain : List ScopeId} (hchain : h.chain scope = chain) :
    h.get? scope name = some value ↔ ∃ before holder after,
      chain = before ++ holder :: after ∧ h.own? holder name = some value ∧
        ∀ i ∈ before, h.own? i name = none := by
  rw [get?, hchain]
  exact List.findSome?_eq_some_iff

section Names

theorem isSome_own?_iff (i : ScopeId) : (h.own? i name).isSome = true ↔
    name ∈ (h.scopes[i]?.map (·.bindings.map Prod.fst)).getD [] := by
  have hlookup (bindings : List (String × Value)) :
      (bindings.lookup name).isSome = true ↔ name ∈ bindings.map Prod.fst := by
    rw [Option.isSome_iff_ne_none, Ne, List.lookup_eq_none_iff, List.mem_map]
    simp only [bne_iff_ne, not_forall, not_not, exists_prop]
    exact exists_congr fun _ => and_congr_right fun _ => eq_comm
  unfold own?
  cases h.scopes[i]? with
  | none => simp
  | some s => exact hlookup s.bindings

/-- The names that are listed are those that stand for something. -/
theorem mem_names_iff : name ∈ h.names scope ↔ (h.get? scope name).isSome = true := by
  rw [names, List.mem_mergeSort, List.mem_eraseDups, List.mem_flatMap, get?,
    List.findSome?_isSome_iff]
  simp only [isSome_own?_iff]

/-- Sorting comes before repeated names are taken out, so the order is strict. -/
theorem nodup_eraseDups (words : List String) : words.eraseDups.Nodup := by
  cases words with
  | nil => exact List.nodup_nil
  | cons word words =>
      rw [List.eraseDups_cons, List.nodup_cons, List.mem_eraseDups, List.mem_filter]
      exact ⟨by simp, nodup_eraseDups _⟩
termination_by words.length
decreasing_by exact Nat.lt_succ_of_le (List.length_filter_le _ _)

theorem pairwise_names (h : Heap) (scope : ScopeId) : (h.names scope).Pairwise (· < ·) := by
  have hsorted : (h.names scope).Pairwise (· ≤ ·) := List.pairwise_mergeSort' (· ≤ ·) _
  have hdistinct : (h.names scope).Nodup :=
    (List.mergeSort_perm _ _).nodup_iff.mpr (nodup_eraseDups _)
  exact hsorted.imp₂ (fun _ _ => lt_of_le_of_ne) hdistinct

end Names

section Bind

/-- Binding a name leaves every scope where it lies. -/
theorem chain_bind (scope : ScopeId) :
    (h.bind target name value).chain scope = h.chain scope := by
  have hgo (fuel : Nat) (scope : ScopeId) :
      chain.go (h.bind target name value) fuel scope = chain.go h fuel scope := by
    induction fuel generalizing scope with
    | zero => rfl
    | succ fuel ih =>
        have hscopes : (h.bind target name value).scopes[scope]? =
            if target = scope then h.scopes[scope]?.map (·.bind name value)
            else h.scopes[scope]? := Array.getElem?_modify
        simp only [chain.go, hscopes, ih]
        by_cases htarget : target = scope
        · rw [if_pos htarget]
          cases h.scopes[scope]? <;> rfl
        · rw [if_neg htarget]
  unfold chain
  rw [hgo, bind, Array.size_modify]

theorem own?_bind_of_ne {i : ScopeId} (hne : i ≠ target ∨ other ≠ name) :
    (h.bind target name value).own? i other = h.own? i other := by
  unfold own? bind
  rw [Array.getElem?_modify]
  split
  next heq =>
    have hother : other ≠ name := hne.resolve_left fun h => h heq.symm
    cases h.scopes[i]? with
    | none => rfl
    | some s => exact Scope.lookup_bindGo name value s.bindings hother
  next => rfl

theorem own?_bind_self (htarget : target < h.scopes.size) :
    (h.bind target name value).own? target name = some value := by
  unfold own? bind
  rw [Array.getElem?_modify, if_pos rfl, Array.getElem?_eq_getElem htarget]
  exact Scope.lookup_bindGo_self name value _

theorem get?_bind_of_ne (hne : other ≠ name) :
    (h.bind target name value).get? scope other = h.get? scope other := by
  unfold get?
  rw [chain_bind]
  congr 1
  funext i
  exact own?_bind_of_ne (.inr hne)

section Exposure

variable (hchain : h.Outward scope (h.chain scope))
include hchain

/-- A binding is seen from the scopes between which and the target no scope holds the name. -/
theorem get?_bind_of_exposes (hexposes : h.Exposes name target scope) :
    (h.bind target name value).get? scope name = some value := by
  obtain ⟨before, after, hpath, hnone⟩ := hexposes
  have hown : (h.bind target name value).own? target name = some value :=
    own?_bind_self (hpath.lt (by simp))
  rw [get?, chain_bind, ← hchain.unique hpath, List.findSome?_append, List.findSome?_cons, hown]
  cases hbefore : before.findSome? ((h.bind target name value).own? · name) with
  | none => rfl
  | some found =>
      obtain ⟨i, hi, hfound⟩ := List.exists_of_findSome?_eq_some hbefore
      by_cases hit : i = target
      · rw [hit, hown] at hfound
        exact hfound.symm
      · rw [own?_bind_of_ne (.inl hit), hnone i hi] at hfound
        cases hfound

/-- From any other scope it is not seen. -/
theorem get?_bind_of_not_exposes (hnot : ¬ h.Exposes name target scope) :
    (h.bind target name value).get? scope name = h.get? scope name := by
  -- Behind scopes that do not hold the name the target cannot come before one that does.
  have hrest (before rest : List ScopeId) (hsplit : before ++ rest = h.chain scope)
      (hnone : ∀ i ∈ before, h.own? i name = none) :
      rest.findSome? ((h.bind target name value).own? · name) =
        rest.findSome? (h.own? · name) := by
    induction rest generalizing before with
    | nil => rfl
    | cons i rest ih =>
        have hne : i ≠ target := by
          rintro rfl
          exact hnot ⟨before, rest, hsplit ▸ hchain, hnone⟩
        rw [List.findSome?_cons, List.findSome?_cons, own?_bind_of_ne (.inl hne)]
        cases hown : h.own? i name with
        | some found => rfl
        | none =>
            apply ih (before ++ [i])
            · rwa [List.append_assoc]
            · rw [List.forall_mem_append, List.forall_mem_singleton]
              exact ⟨hnone, hown⟩
  rw [get?, chain_bind]
  exact hrest [] _ rfl nofun

end Exposure

end Bind

end Heap

end Scriptlet
