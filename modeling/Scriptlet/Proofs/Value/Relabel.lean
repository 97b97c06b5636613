import Scriptlet.Proofs.Tree.Relabel
import Scriptlet.Proofs.Value.Alike

/-!
What is left of a value when tokens do not count. Functions hold a tree, and other values may
hold functions; a relabelling changes the tokens in them and nothing else. The type and the
text of a value stay as they are, and so does everything that operators and conditions ask.
-/

namespace Scriptlet.Relabelling

variable (r : Relabelling)

mutual

/-- The value with every token in it changed. -/
def value : Value → Value
  | .array id elements => .array id (values elements)
  | .hash id entries => .hash id (keyed entries)
  | .function id parameters body scope => .function id parameters (r.node body) scope
  | .returned id inner => .returned id (value inner)
  | .integer n => .integer n
  | .boolean b => .boolean b
  | .text s => .text s
  | .null => .null
  | .builtin f => .builtin f
  | .error reason => .error reason

def values : List Value → List Value
  | [] => []
  | v :: vs => value v :: values vs

def keyed : List (Key × Value) → List (Key × Value)
  | [] => []
  | (key, v) :: entries => (key, value v) :: keyed entries

end

/-- The mutual recursion over elements is a map, so what is known of maps applies. -/
theorem values_eq_map (vs : List Value) : r.values vs = vs.map r.value := by
  induction vs with
  | nil => rfl
  | cons v vs ih => rw [values, ih, List.map_cons]

/-- Only what was made under a number can hold a tree. -/
theorem value_of_flat {v : Value} (h : v.number? = none) : r.value v = v := by
  cases v with
  | array | hash | function | returned => cases h
  | _ => rfl

/-- The next few lemmas are all that rules ask of a value before they use it; none sees
the change. -/
@[simp] theorem tag_value (v : Value) : (r.value v).tag = v.tag := by
  cases v <;> rfl

@[simp] theorem isTruthy_value (v : Value) : (r.value v).isTruthy = v.isTruthy := by
  cases v <;> rfl

@[simp] theorem isError_value (v : Value) : (r.value v).isError = v.isError := by
  cases v <;> rfl

@[simp] theorem isExit_value (v : Value) : (r.value v).isExit = v.isExit := by
  cases v <;> rfl

/-- A key holds no tree. -/
@[simp] theorem key?_value (v : Value) : (r.value v).key? = v.key? := by
  cases v <;> rfl

theorem unwrap_value (v : Value) : (r.value v).unwrap = r.value v.unwrap := by
  cases v <;> rfl

/-- Identity goes by numbers, and these stay. -/
theorem same_value (v w : Value) : (r.value v).same (r.value w) = v.same w := by
  cases v <;> cases w <;> rfl

theorem getD_value (found : Option Value) :
    (found.map r.value).getD .null = r.value (found.getD .null) := by
  cases found <;> rfl

mutual

/-- The text of a function is made of its names and of the canonical text of its body, where tokens
do not show. -/
theorem inspect_value : ∀ v : Value, (r.value v).inspect = v.inspect
  | .integer _ | .boolean _ | .text _ | .null | .builtin _ | .error _ => rfl
  | .array _ elements => by
    rw [value, Value.inspect, inspectAll_values, Value.inspect]
  | .hash _ entries => by
    rw [value, Value.inspect, inspectPairs_keyed, Value.inspect]
  | .function _ parameters body _ => by
    rw [value, Value.inspect, Value.functionText, render_node, Value.inspect,
      Value.functionText]
  | .returned _ inner => by rw [value, Value.inspect, inspect_value, Value.inspect]

theorem inspectAll_values : ∀ vs : List Value,
    Value.inspectAll (r.values vs) = Value.inspectAll vs
  | [] => rfl
  | v :: vs => by
    rw [values, Value.inspectAll, inspect_value, inspectAll_values, Value.inspectAll]

theorem inspectPairs_keyed : ∀ entries : List (Key × Value),
    Value.inspectPairs (r.keyed entries) = Value.inspectPairs entries
  | [] => rfl
  | (key, v) :: entries => by
    rw [keyed, Value.inspectPairs, inspect_value, inspectPairs_keyed, Value.inspectPairs]

end

/-- An operator on a changed operand gives the changed result. -/
theorem unary_value (operator : String) (v : Value) :
    (r.value v).unary operator = r.value (v.unary operator) := by
  rw [r.value_of_flat (Value.number?_unary operator v)]
  by_cases htag : v.tag = .integer
  · cases v with
    | integer n => rfl
    | _ => cases htag
  · rw [Value.unary_of_tag_ne operator htag, Value.unary_of_tag_ne operator (by simpa using htag),
      isTruthy_value, tag_value]

theorem otherBinary_value (operator : String) (v w : Value) :
    (r.value v).otherBinary operator (r.value w) = v.otherBinary operator w := by
  by_cases htag : v.tag = .boolean
  · cases v with
    | boolean a => cases w <;> rfl
    | _ => cases htag
  · rw [Value.otherBinary_of_tag_ne operator htag,
      Value.otherBinary_of_tag_ne operator (by simpa using htag), same_value, tag_value,
      tag_value]

/-- Of two operands only types, contents and identities are asked, so the result is the same up to
the change. -/
theorem binary_value (operator : String) (v w : Value) :
    (r.value v).binary operator (r.value w) = r.value (v.binary operator w) := by
  rw [r.value_of_flat (Value.number?_binary operator v w)]
  have hother := r.otherBinary_value operator v w
  cases v with
  | integer a =>
      cases w with
      | integer b => rfl
      | _ => exact hother
  | text a =>
      cases w with
      | text b => rfl
      | _ => exact hother
  | _ => exact hother

/-- Keys stay in their order, so a key is found in the place where it was. -/
theorem lookup_keyed (entries : List (Key × Value)) (key : Key) :
    (r.keyed entries).lookup key = (entries.lookup key).map r.value := by
  induction entries with
  | nil => rfl
  | cons entry entries ih =>
      obtain ⟨k, v⟩ := entry
      rw [keyed, List.lookup_cons, List.lookup_cons, ih]
      split <;> rfl

/-- What an index takes out of a changed collection is the changed value. -/
theorem index_value (v place : Value) :
    (r.value v).index (r.value place) = r.value (v.index place) := by
  cases v with
  | array id elements =>
      cases place with
      | integer n =>
          simp only [value, Value.index, values_eq_map, List.getElem?_map]
          split
          · exact r.getD_value _
          · rfl
      | _ => rfl
  | hash id entries =>
      simp only [value, Value.index, key?_value, tag_value]
      split
      · rw [lookup_keyed, getD_value]
      · rfl
  | _ => rfl

/-- Entering a pair before the change or after it comes to the same. -/
theorem insertPair_keyed (entries : List (Key × Value)) (key : Key) (v : Value) :
    insertPair (r.keyed entries) key (r.value v) = r.keyed (insertPair entries key v) := by
  induction entries with
  | nil => rfl
  | cons entry entries ih =>
      obtain ⟨k, u⟩ := entry
      rw [keyed, insertPair, insertPair, ih]
      split <;> rfl

end Scriptlet.Relabelling
