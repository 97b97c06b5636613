import Scriptlet.Eval.Evaluate

/-!
Values and scopes in which no error is stored. Operators and functions that every
program has, given such values, give an error itself or another such value; looking
a name up in such scopes finds such a value, and binding one leaves the scopes so.
-/

namespace Scriptlet

namespace Value

mutual

/-- The value is no error, nor is any value that it holds. -/
def errorFree : Value → Bool
  | .error _ => false
  | .array _ elements => errorFreeAll elements
  | .hash _ pairs => errorFreePairs pairs
  | .returned _ value => value.errorFree
  | _ => true

def errorFreeAll : List Value → Bool
  | [] => true
  | v :: vs => v.errorFree && errorFreeAll vs

def errorFreePairs : List (Key × Value) → Bool
  | [] => true
  | (_, v) :: pairs => v.errorFree && errorFreePairs pairs

end

theorem errorFreeAll_eq_all (vs : List Value) : errorFreeAll vs = vs.all errorFree := by
  induction vs with
  | nil => rfl
  | cons v vs ih =>
      rw [List.all_cons, ← ih]
      rfl

theorem errorFreePairs_eq_all (pairs : List (Key × Value)) :
    errorFreePairs pairs = pairs.all (·.2.errorFree) := by
  induction pairs with
  | nil => rfl
  | cons pair pairs ih =>
      rw [List.all_cons, ← ih]
      rfl

/-- The form in which arrays are asked for errors: member by member. -/
theorem errorFree_array {id : Nat} {elements : List Value} :
    (array id elements).errorFree = true ↔ ∀ v ∈ elements, v.errorFree = true := by
  show errorFreeAll elements = true ↔ _
  rw [errorFreeAll_eq_all, List.all_eq_true]

theorem errorFree_hash {id : Nat} {pairs : List (Key × Value)} :
    (hash id pairs).errorFree = true ↔ ∀ pair ∈ pairs, pair.2.errorFree = true := by
  show errorFreePairs pairs = true ↔ _
  rw [errorFreePairs_eq_all, List.all_eq_true]

/-- A value that may be stored does not end what it comes up in. -/
theorem isError_of_errorFree {v : Value} (h : v.errorFree = true) : v.isError = false := by
  cases v with
  | error reason => cases h
  | _ => rfl

theorem errorFree_unwrap {v : Value} (h : v.errorFree = true) :
    v.unwrap.errorFree = true := by
  cases v with
  | returned id v => exact h
  | _ => exact h

/-- The value is an error, or holds none. -/
def Settled (v : Value) : Prop :=
  v.isError = true ∨ v.errorFree = true

/-- A settled value that does not end the evaluation may be stored. -/
theorem Settled.errorFree {v : Value} (h : v.Settled) (hno : v.isError = false) :
    v.errorFree = true := by
  rcases h with herror | hfree
  · rw [hno] at herror
    cases herror
  · exact hfree

/-- The reason, if the value is an error. -/
def reason? : Value → Option RuntimeError
  | .error reason => some reason
  | _ => none

theorem eq_error_of_reason? {v : Value} {reason : RuntimeError}
    (h : v.reason? = some reason) : v = .error reason := by
  cases v with
  | error found => rw [Option.some.inj h]
  | _ => cases h

/-- Where an error is raised by its reason, what is left without one may be stored. -/
theorem Settled.errorFree_of_reason? {v : Value} (h : v.Settled)
    (hreason : v.reason? = none) : v.errorFree = true := by
  apply h.errorFree
  cases v with
  | error reason => cases hreason
  | _ => rfl

/-- What an operator gives is settled whatever its operand is: it takes nothing out of it. -/
theorem settled_unary (operator : String) (v : Value) : (v.unary operator).Settled := by
  unfold unary
  split
  case h_4 => exact .inl rfl
  all_goals exact .inr rfl

theorem settled_integerBinary (operator : String) (a b : Int) :
    (integerBinary operator a b).Settled := by
  unfold integerBinary
  split
  case h_4 =>
      split
      · exact .inr rfl
      · exact .inl rfl
  case h_9 => exact .inl rfl
  all_goals exact .inr rfl

theorem settled_textBinary (operator : String) (a b : String) :
    (textBinary operator a b).Settled := by
  unfold textBinary
  split
  case h_6 => exact .inl rfl
  all_goals exact .inr rfl

theorem settled_otherBinary (operator : String) (left right : Value) :
    (otherBinary operator left right).Settled := by
  unfold otherBinary
  split
  · exact .inr rfl
  split
  · exact .inr rfl
  split
  · exact .inl rfl
  split
  case h_3 => exact .inl rfl
  all_goals exact .inr rfl

/-- An operator makes a new value or an error, so its operands do not matter. -/
theorem settled_binary (operator : String) (left right : Value) :
    (left.binary operator right).Settled := by
  unfold binary
  split
  · exact settled_integerBinary _ _ _
  · exact settled_textBinary _ _ _
  · exact settled_otherBinary _ _ _

/-- An index takes a value out of a collection, which is why the collection has to be free of
errors. -/
theorem settled_index {collection : Value} (h : collection.errorFree = true)
    (place : Value) : (collection.index place).Settled := by
  unfold index
  split
  next elements n =>
    right
    split
    · cases hfound : elements[n.toNat]? with
      | none => rfl
      | some v => exact errorFree_array.mp h v (List.mem_of_getElem? hfound)
    · rfl
  next id pairs =>
    split
    next key _ =>
      right
      cases hfound : pairs.lookup key with
      | none => rfl
      | some v =>
          obtain ⟨before, after, hpairs, _⟩ := List.lookup_eq_some_iff.mp hfound
          exact errorFree_hash.mp h (key, v) (by rw [hpairs]; simp)
    next => exact .inl rfl
  next => exact .inl rfl

/-- Pairs entered one after the other stay free of errors. -/
theorem errorFree_insertPair {pairs : List (Key × Value)} {key : Key} {v : Value}
    (h : ∀ pair ∈ pairs, pair.2.errorFree = true) (hv : v.errorFree = true) :
    ∀ pair ∈ insertPair pairs key v, pair.2.errorFree = true := by
  induction pairs with
  | nil => simpa [insertPair] using hv
  | cons pair pairs ih =>
      rw [List.forall_mem_cons] at h
      unfold insertPair
      split
      · exact List.forall_mem_cons.mpr ⟨hv, h.2⟩
      · exact List.forall_mem_cons.mpr ⟨h.1, ih h.2⟩

end Value

/-- No error stands for a name in the scope. -/
def Scope.ErrorFree (s : Scope) : Prop :=
  ∀ binding ∈ s.bindings, binding.2.errorFree = true

theorem Scope.ErrorFree.bind {s : Scope} (h : s.ErrorFree) (name : String) {v : Value}
    (hv : v.errorFree = true) : (s.bind name v).ErrorFree := by
  have hgo (bindings : List (String × Value))
      (hbindings : ∀ binding ∈ bindings, binding.2.errorFree = true) :
      ∀ binding ∈ Scope.bind.go name v bindings, binding.2.errorFree = true := by
    induction bindings with
    | nil => simpa [Scope.bind.go] using hv
    | cons binding bindings ih =>
        rw [List.forall_mem_cons] at hbindings
        unfold Scope.bind.go
        split
        · exact List.forall_mem_cons.mpr ⟨hv, hbindings.2⟩
        · exact List.forall_mem_cons.mpr ⟨hbindings.1, ih hbindings.2⟩
  exact hgo s.bindings h

namespace Heap

/-- No error stands for a name in any scope. -/
def ErrorFree (h : Heap) : Prop :=
  ∀ s ∈ h.scopes, s.ErrorFree

variable {h : Heap}

/-- A new scope holds nothing. -/
theorem ErrorFree.enclose (hfree : h.ErrorFree) (outer : Option ScopeId) :
    (h.enclose outer).2.ErrorFree := by
  intro s hs
  rcases Array.mem_push.mp hs with hold | rfl
  · exact hfree s hold
  · simp [Scope.ErrorFree]

/-- The one way in which values get into scopes: what is bound must be free of errors. -/
theorem ErrorFree.bind (hfree : h.ErrorFree) (scope : ScopeId) (name : String) {v : Value}
    (hv : v.errorFree = true) : (h.bind scope name v).ErrorFree := by
  intro s hs
  obtain ⟨i, hi, rfl⟩ := Array.mem_iff_getElem.mp hs
  simp only [Heap.bind, Array.size_modify] at hi
  simp only [Heap.bind, Array.getElem_modify]
  split
  · exact (hfree _ (Array.getElem_mem hi)).bind name hv
  · exact hfree _ (Array.getElem_mem hi)

/-- The one way in which values get out of scopes. -/
theorem ErrorFree.get? (hfree : h.ErrorFree) {scope : ScopeId} {name : String} {v : Value}
    (hv : h.get? scope name = some v) : v.errorFree = true := by
  obtain ⟨i, _, hown⟩ := List.exists_of_findSome?_eq_some hv
  obtain ⟨s, hs, hlookup⟩ := Option.bind_eq_some_iff.mp hown
  obtain ⟨before, after, hbindings, _⟩ := List.lookup_eq_some_iff.mp hlookup
  have hmem : s ∈ h.scopes := Array.mem_of_getElem? hs
  exact hfree s hmem (name, v) (by rw [hbindings]; simp)

end Heap

namespace Builtin

theorem settled_length (arguments : List Value) : (length arguments).Settled := by
  unfold length
  split
  · exact .inr rfl
  · exact .inr rfl
  · exact .inl rfl
  · exact .inl rfl

/-- What a function takes out of an array argument is as free of errors as the argument. -/
theorem arrayArgument_errorFree {f : Builtin} {wanted : Nat} {arguments elements : List Value}
    (h : ∀ v ∈ arguments, v.errorFree = true)
    (helements : f.arrayArgument wanted arguments = .ok elements) :
    ∀ v ∈ elements, v.errorFree = true := by
  unfold arrayArgument at helements
  split at helements
  · cases helements
  · split at helements
    next =>
      cases helements
      exact Value.errorFree_array.mp (h _ List.mem_cons_self)
    next => cases helements
    next =>
      cases helements
      simp

/-- What a function of every program does to a machine: it comes to an end with a
value that is an error or holds none, and leaves the scopes alone. -/
def Ends (e : Eval Value) : Prop :=
  ∀ m, ∃ v m', e m = .done v m' ∧ v.Settled ∧ m'.heap = m.heap

/-- There is one run only, so what is known of some end is known of this one. -/
theorem Ends.of_done {e : Eval Value} {m m' : Machine} {v : Value} (h : Ends e)
    (hrun : e m = .done v m') : v.Settled ∧ m'.heap = m.heap := by
  obtain ⟨v', after, hdone, hsettled, hheap⟩ := h m
  rw [hrun] at hdone
  obtain ⟨rfl, rfl⟩ := Outcome.done.inj hdone
  exact ⟨hsettled, hheap⟩

theorem Ends.not_broken {e : Eval Value} {m m' : Machine} {breach : Breach} (h : Ends e) :
    e m ≠ .broken breach m' := by
  intro hrun
  obtain ⟨v, after, hdone, _⟩ := h m
  rw [hrun] at hdone
  cases hdone

theorem Ends.not_tooDeep {e : Eval Value} {m m' : Machine} (h : Ends e) :
    e m ≠ .tooDeep m' := by
  intro hrun
  obtain ⟨v, after, hdone, _⟩ := h m
  rw [hrun] at hdone
  cases hdone

theorem ends_pure {v : Value} (h : v.Settled) : Ends (Pure.pure v) := by
  intro m
  exact ⟨v, m, rfl, h, rfl⟩

theorem ends_newArray {elements : List Value} (h : ∀ v ∈ elements, v.errorFree = true) :
    Ends (Eval.newArray elements) := by
  intro m
  exact ⟨_, _, rfl, .inr (Value.errorFree_array.mpr h), rfl⟩

/-- A function of one array ends if its body does, since a wrong argument only gives an error. -/
theorem ends_onArray {f : Builtin} {arguments : List Value} {body : List Value → Eval Value}
    (h : ∀ v ∈ arguments, v.errorFree = true)
    (hbody : ∀ elements, (∀ v ∈ elements, v.errorFree = true) → Ends (body elements)) :
    Ends (f.onArray arguments body) := by
  unfold onArray
  split
  next elements helements => exact hbody elements (arrayArgument_errorFree h helements)
  next => exact ends_pure (.inl rfl)

theorem ends_printAll (arguments : List Value) : Ends (printAll arguments) := by
  induction arguments with
  | nil => exact ends_pure (.inr rfl)
  | cons v vs ih =>
      intro m
      exact ih _

/-- The seven functions end, and what they give may be stored or is an error. With this an
evaluation in which no error is stored can call them and go on. -/
theorem ends_apply (f : Builtin) {arguments : List Value}
    (h : ∀ v ∈ arguments, v.errorFree = true) : Ends (f.apply arguments) := by
  have hgetD {found : Option Value} (hfound : ∀ v ∈ found, v.errorFree = true) :
      (found.getD .null).Settled := by
    cases found with
    | none => exact .inr rfl
    | some v => exact .inr (hfound v rfl)
  cases f with
  | len => exact ends_pure (settled_length arguments)
  | first =>
      apply ends_onArray h
      intro elements helements
      exact ends_pure (hgetD fun v hv => helements v (List.mem_of_head? hv))
  | last =>
      apply ends_onArray h
      intro elements helements
      exact ends_pure (hgetD fun v hv => helements v (List.mem_of_getLast? hv))
  | rest =>
      apply ends_onArray h
      intro elements helements
      split
      · exact ends_pure (.inr rfl)
      · exact ends_newArray fun v hv => helements v (List.mem_of_mem_tail hv)
  | pop =>
      apply ends_onArray h
      intro elements helements
      split
      · exact ends_pure (.inr rfl)
      · exact ends_newArray fun v hv => helements v ((List.dropLast_sublist _).mem hv)
  | push =>
      simp only [apply]
      split
      next elements helements =>
        have hfree := arrayArgument_errorFree h helements
        apply ends_newArray
        intro v hv
        rcases List.mem_append.mp hv with hold | hnew
        · exact hfree v hold
        · exact h v (List.mem_of_mem_tail hnew)
      next => exact ends_pure (.inl rfl)
  | puts => exact ends_printAll arguments

end Builtin

end Scriptlet
