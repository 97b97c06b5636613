import Scriptlet.Eval.Operator

/-!
The values that a value holds: the elements of an array, the values of a hash, and what
a return wrapper is around. What holds of a value as soon as it holds of its parts holds
of every value. A value that was not made under a number holds none, and operators make
no other.
-/

namespace Scriptlet.Value

def parts : Value → List Value
  | .array _ elements => elements
  | .hash _ pairs => pairs.map Prod.snd
  | .returned _ value => [value]
  | _ => []

theorem mem_parts_hash {id : Nat} {pairs : List (Key × Value)} {pair : Key × Value}
    (h : pair ∈ pairs) : pair.2 ∈ (hash id pairs).parts :=
  List.mem_map_of_mem h

/-- The measure by which an induction on what a value holds ends. -/
theorem sizeOf_parts {u v : Value} (h : u ∈ v.parts) : sizeOf u < sizeOf v := by
  cases v with
  | array id elements =>
      have hlt : sizeOf u < sizeOf elements := List.sizeOf_lt_of_mem h
      rw [array.sizeOf_spec]
      omega
  | hash id pairs =>
      obtain ⟨⟨key, value⟩, hpair, rfl⟩ := List.mem_map.mp h
      have hlt : sizeOf (key, value) < sizeOf pairs := List.sizeOf_lt_of_mem hpair
      rw [Prod.mk.sizeOf_spec] at hlt
      show sizeOf value < _
      rw [hash.sizeOf_spec]
      omega
  | returned id value =>
      rw [List.mem_singleton.mp h, returned.sizeOf_spec]
      omega
  | _ => cases h

/-- Induction over what a value holds. -/
@[elab_as_elim]
theorem parts_induction {motive : Value → Prop} (v : Value)
    (step : ∀ v, (∀ u ∈ v.parts, motive u) → motive v) : motive v :=
  step v fun u _ => parts_induction u step
termination_by sizeOf v
decreasing_by exact sizeOf_parts ‹_›

/-- The number under which a value was made. -/
def number? : Value → Option Nat
  | .array id _ | .hash id _ | .function id _ _ _ | .returned id _ => some id
  | _ => none

/-- Only values with a number hold others. -/
theorem parts_of_number? {v : Value} (h : v.number? = none) : v.parts = [] := by
  cases v with
  | array | hash | function | returned => cases h
  | _ => rfl

theorem number?_unary (operator : String) (v : Value) : (v.unary operator).number? = none := by
  unfold unary
  split <;> rfl

theorem number?_integerBinary (operator : String) (a b : Int) :
    (integerBinary operator a b).number? = none := by
  unfold integerBinary
  split
  case h_4 => split <;> rfl
  all_goals rfl

theorem number?_textBinary (operator : String) (a b : String) :
    (textBinary operator a b).number? = none := by
  unfold textBinary
  split <;> rfl

theorem number?_otherBinary (operator : String) (left right : Value) :
    (otherBinary operator left right).number? = none := by
  unfold otherBinary
  split
  · rfl
  split
  · rfl
  split
  · rfl
  split <;> rfl

/-- Operators make integers, texts, truth values and errors, none of which has a number. -/
theorem number?_binary (operator : String) (left right : Value) :
    (left.binary operator right).number? = none := by
  unfold binary
  split
  · exact number?_integerBinary operator _ _
  · exact number?_textBinary operator _ _
  · exact number?_otherBinary operator _ _

/-- What is found in a collection is one of its parts, or was not made under a number. -/
theorem index_mem_parts (v place : Value) :
    v.index place ∈ v.parts ∨ (v.index place).number? = none := by
  have hfound {found : Option Value} (h : ∀ u, found = some u → u ∈ v.parts) :
      found.getD .null ∈ v.parts ∨ (found.getD .null).number? = none := by
    cases found with
    | none => exact .inr rfl
    | some u => exact .inl (h u rfl)
  unfold index
  split
  · split
    · exact hfound fun u hu => List.mem_of_getElem? hu
    · exact .inr rfl
  · split
    · apply hfound
      intro u hu
      obtain ⟨before, after, heq, _⟩ := List.lookup_eq_some_iff.mp hu
      rw [heq]
      exact mem_parts_hash (List.mem_append_right before List.mem_cons_self)
    · exact .inr rfl
  · exact .inr rfl

/-- The property holds of the value and of all that it holds. -/
inductive Every (property : Value → Prop) : Value → Prop where
  | intro {v : Value} (here : property v) (parts : ∀ u ∈ v.parts, Every property u) :
      Every property v

namespace Every

variable {property property' : Value → Prop} {u v : Value}

theorem here (h : v.Every property) : property v := by
  obtain ⟨hhere, _⟩ := h
  exact hhere

/-- What holds of a value throughout holds throughout of what it holds. -/
theorem part (h : v.Every property) (hu : u ∈ v.parts) : u.Every property := by
  obtain ⟨_, hparts⟩ := h
  exact hparts u hu

theorem mono (h : v.Every property) (hle : ∀ {u}, property u → property' u) :
    v.Every property' := by
  induction h with
  | intro hhere _ ih => exact .intro (hle hhere) ih

theorem and (h : v.Every property) (h' : v.Every property') :
    v.Every fun u => property u ∧ property' u := by
  induction h with
  | intro hhere _ ih => exact .intro ⟨hhere, h'.here⟩ fun u hu => ih u hu (h'.part hu)

theorem hash {id : Nat} {pairs : List (Key × Value)} (hhere : property (.hash id pairs))
    (h : ∀ pair ∈ pairs, pair.2.Every property) : (Value.hash id pairs).Every property := by
  apply Every.intro hhere
  intro u hu
  obtain ⟨pair, hpair, rfl⟩ := List.mem_map.mp hu
  exact h pair hpair

theorem returned {id : Nat} (hhere : property (.returned id v)) (h : v.Every property) :
    (Value.returned id v).Every property := by
  apply Every.intro hhere
  intro u hu
  rw [List.mem_singleton.mp hu]
  exact h

theorem unwrap (h : v.Every property) : v.unwrap.Every property := by
  cases v with
  | returned id value => exact h.part (List.mem_singleton.mpr rfl)
  | _ => exact h

section Flat

variable (hflat : ∀ {v : Value}, v.number? = none → property v)

include hflat

/-- A value without a number holds nothing that the property could fail of. -/
theorem flat (h : v.number? = none) : v.Every property := by
  apply Every.intro (hflat h)
  rw [parts_of_number? h]
  exact fun u hu => nomatch hu

theorem getD {found : Option Value} (h : ∀ v ∈ found, v.Every property) :
    (found.getD .null).Every property := by
  cases found with
  | none => exact flat hflat rfl
  | some v => exact h v rfl

/-- An index gives a part or null, so it keeps any property that null has. -/
theorem index (h : v.Every property) (place : Value) : (v.index place).Every property := by
  rcases v.index_mem_parts place with hpart | hnumber
  · exact h.part hpart
  · exact flat hflat hnumber

end Flat

end Every

/-- A pair that is there after another is entered is that one or was there before. -/
theorem mem_insertPair {pairs : List (Key × Value)} {key : Key} {v : Value}
    {pair : Key × Value} (h : pair ∈ insertPair pairs key v) :
    pair = (key, v) ∨ pair ∈ pairs := by
  induction pairs with
  | nil => exact .inl (List.mem_singleton.mp h)
  | cons first pairs ih =>
      unfold insertPair at h
      split at h
      · rcases List.mem_cons.mp h with rfl | hold
        · exact .inl rfl
        · exact .inr (List.mem_cons_of_mem _ hold)
      · rcases List.mem_cons.mp h with rfl | hrest
        · exact .inr List.mem_cons_self
        · exact (ih hrest).imp_right (List.mem_cons_of_mem _)

end Scriptlet.Value
