import Scriptlet.Eval.Evaluate

/-!
Evaluation by operations that can fail. Division fails for a divisor of zero, taking an
element for a place that the list does not have, and making a key for a value of another
type. Each rule asks before it uses such an operation, so it does not matter what a failure
would do: with any way to fail, this is the evaluation of the language.
-/

namespace Scriptlet

inductive Fault where
  | zeroDivisor
  | noElement
  | noKey

/-- What an operation does if it fails. -/
abbrev Failing := (α : Type) → Fault → Eval α

namespace Guarded

variable (fail : Failing)

def quotient (a b : Int) : Eval Int :=
  match Int64.truncDiv? a b with
  | some q => return q
  | none => fail Int .zeroDivisor

/-- The element at a place, counted from the end if the place is negative. -/
def element (vs : List Value) (place : Int) : Eval Value :=
  match if place < 0 then vs.reverse[(-place - 1).toNat]? else vs[place.toNat]? with
  | some v => return v
  | none => fail Value .noElement

def keyOf (v : Value) : Eval Key :=
  match v.key? with
  | some key => return key
  | none => fail Key .noKey

/-- The value is of a type that keys have. -/
def isKey (v : Value) : Bool :=
  v.tag = .integer || v.tag = .boolean || v.tag = .text

def integerBinary (operator : String) (a b : Int) : Eval Value :=
  if operator = "/" then
    if b = 0 then return .error .divisionByZero
    else do return .integer (Int64.wrap (← quotient fail a b))
  else return Value.integerBinary operator a b

def binary (operator : String) : Value → Value → Eval Value
  | .integer a, .integer b => integerBinary fail operator a b
  | left, right => return left.binary operator right

def index : Value → Value → Eval Value
  | .array _ elements, .integer n =>
    if 0 ≤ n ∧ n < elements.length then element fail elements n else return .null
  | .hash _ pairs, place =>
    if isKey place then do return (pairs.lookup (← keyOf fail place)).getD .null
    else return .error (.badKey place.tag)
  | collection, _ => return .error (.notIndexable collection.tag)

def arrayArgument (f : Builtin) (wanted : Nat) (arguments : List Value) :
    Eval (Except RuntimeError (List Value)) :=
  if arguments.length ≠ wanted then return .error (.builtinCount f wanted arguments.length)
  else do
    match ← element fail arguments 0 with
    | .array _ elements => return .ok elements
    | other => return .error (.builtinType f [.array] other.tag)

def onArray (f : Builtin) (arguments : List Value) (body : List Value → Eval Value) :
    Eval Value := do
  match ← arrayArgument fail f 1 arguments with
  | .ok elements => body elements
  | .error reason => return .error reason

def length (arguments : List Value) : Eval Value :=
  if arguments.length ≠ 1 then return .error (.builtinCount .len 1 arguments.length)
  else do
    match ← element fail arguments 0 with
    | .text s => return .integer s.length
    | .array _ elements => return .integer elements.length
    | other => return .error (.builtinType .len [.text, .array] other.tag)

def builtin (f : Builtin) (arguments : List Value) : Eval Value :=
  match f with
  | .len => length fail arguments
  | .first => onArray fail f arguments fun elements =>
    if elements.isEmpty then return .null else element fail elements 0
  | .last => onArray fail f arguments fun elements =>
    if elements.isEmpty then return .null else element fail elements (-1)
  | .rest => onArray fail f arguments fun elements =>
    if elements.isEmpty then return .null else Eval.newArray elements.tail
  | .pop => onArray fail f arguments fun elements =>
    if elements.isEmpty then return .null else Eval.newArray elements.dropLast
  | .push => do
    match ← arrayArgument fail f 2 arguments with
    | .ok elements => Eval.newArray (elements ++ [← element fail arguments 1])
    | .error reason => return .error reason
  | .puts => Builtin.printAll arguments

def apply (stepIn : ScopeId → Eval.Step) (callee : Value) (arguments : List Value) :
    Eval Value :=
  match callee with
  | .builtin f => builtin fail f arguments
  | _ => Eval.apply stepIn callee arguments

def pairs (step : Eval.Step) : List (Node × Node) → List (Key × Value) →
    Eval (Except RuntimeError (List (Key × Value)))
  | [], found => return .ok found
  | (keyNode, valueNode) :: nodes, found => do
    match ← Eval.value step keyNode with
    | .error reason => return .error reason
    | key =>
      if isKey key then
        match ← Eval.value step valueNode with
        | .error reason => return .error reason
        | v => pairs step nodes (insertPair found (← keyOf fail key) v)
      else return .error (.badKey key.tag)

open Eval in
def evaluate : (levels : Nat) → ScopeId → Node → Eval (Option Value)
  | 0, _, _ => tooDeep
  | levels + 1, scope, node =>
    let step := evaluate levels scope
    match node with
    | .bare _ => breakOff (.noRule node)
    | .program nodes => do return (← statements step nodes none).map Value.unwrap
    | .block _ nodes => statements step nodes none
    | .binding _ name valueNode => withValue step valueNode fun v => do
      bindName scope name.name v
      return none
    | .ret _ none => some <$> newReturned .null
    | .ret _ (some valueNode) => withValue step valueNode fun v => some <$> newReturned v
    | .expression _ valueNode => some <$> value step valueNode
    | .ident id => some <$> Eval.ident scope id.name
    | .integer _ n => return some (.integer n)
    | .boolean _ b => return some (.boolean b)
    | .text _ s => return some (.text s)
    | .array _ nodes => do
      match ← values step nodes [] with
      | .ok elements => some <$> newArray elements
      | .error reason => return some (.error reason)
    | .hash _ nodes => do
      match ← pairs fail step nodes [] with
      | .ok found => some <$> newHash found
      | .error reason => return some (.error reason)
    | .unary _ operator operand => withValue step operand fun v =>
      return some (v.unary operator)
    | .binary _ left operator right =>
      withValue step left fun l => withValue step right fun r =>
        some <$> binary fail operator l r
    | .conditional _ condition consequence alternative => withValue step condition fun v =>
      if v.isTruthy then branch step consequence
      else
        match alternative with
        | some block => branch step block
        | none => return some .null
    | .function _ parameters body => some <$> Eval.function scope parameters body
    | .call _ callee nodes => withValue step callee fun f => do
      match ← values step nodes [] with
      | .ok arguments => some <$> apply fail (evaluate levels) f arguments
      | .error reason => return some (.error reason)
    | .index _ collection place =>
      withValue step collection fun c => withValue step place fun i =>
        some <$> index fail c i

theorem pure_bind {α β : Type} (a : α) (next : α → Eval β) :
    (Pure.pure a >>= next) = next a := rfl

/-- What the test for zero is good for: behind it a division cannot fail. -/
theorem quotient_eq {a b : Int} (h : b ≠ 0) :
    quotient fail a b = Pure.pure (a.tdiv b) := by
  rw [quotient, Int64.truncDiv?_eq_tdiv a h]

/-- Behind a test of the bounds an access cannot fail. -/
theorem element_of_getElem? {vs : List Value} {n : Nat} {v : Value} (h : vs[n]? = some v) :
    element fail vs n = Pure.pure v := by
  have hnonneg : ¬ (n : Int) < 0 := by omega
  simp [element, hnonneg, h]

theorem element_head (v : Value) (vs : List Value) :
    element fail (v :: vs) 0 = Pure.pure v :=
  element_of_getElem? fail rfl

/-- Place minus one is the last element, if there is one. -/
theorem element_last {vs : List Value} {v : Value} (h : vs.getLast? = some v) :
    element fail vs (-1) = Pure.pure v := by
  have hreverse : vs.reverse[0]? = some v := by
    rw [← List.head?_eq_getElem?, List.head?_reverse, h]
  simp [element, hreverse]

/-- The types that are let through are those that have keys. -/
theorem isKey_eq (v : Value) : isKey v = v.key?.isSome := by
  cases v <;> rfl

theorem keyOf_eq {v : Value} {key : Key} (h : v.key? = some key) :
    keyOf fail v = Pure.pure key := by
  simp [keyOf, h]

/-- The operator tests for zero before it divides. -/
theorem integerBinary_eq (operator : String) (a b : Int) :
    integerBinary fail operator a b = Pure.pure (Value.integerBinary operator a b) := by
  unfold integerBinary
  split
  next hdivision =>
    subst hdivision
    split
    next hzero => simp [Value.integerBinary, hzero]
    next hzero =>
      rw [quotient_eq fail hzero, pure_bind]
      simp [Value.integerBinary, Int64.truncDiv?_eq_tdiv a hzero]
  next => rfl

theorem binary_eq (operator : String) (left right : Value) :
    binary fail operator left right = Pure.pure (left.binary operator right) := by
  unfold binary
  split
  · exact integerBinary_eq fail operator _ _
  · rfl

/-- An index is tested against both bounds before the access. -/
theorem index_array (id : Nat) (elements : List Value) (n : Int) :
    index fail (.array id elements) (.integer n) =
      Pure.pure ((Value.array id elements).index (.integer n)) := by
  simp only [index, Value.index]
  split
  next hplace =>
    obtain ⟨k, rfl⟩ := Int.eq_ofNat_of_zero_le hplace.1
    have hlt : k < elements.length := by omega
    have hfound : elements[k]? = some elements[k] := List.getElem?_eq_getElem hlt
    rw [element_of_getElem? fail hfound]
    simp [hlt]
  next hplace =>
    split
    next hnonneg =>
      have hout : elements.length ≤ n.toNat := by omega
      simp [hout]
    next => rfl

/-- A key is asked for only of a type that has one. -/
theorem index_hash (id : Nat) (entries : List (Key × Value)) (place : Value) :
    index fail (.hash id entries) place =
      Pure.pure ((Value.hash id entries).index place) := by
  simp only [index, Value.index, isKey_eq]
  cases hkey : place.key? with
  | some key => simp only [Option.isSome_some, if_true, keyOf_eq fail hkey, pure_bind]
  | none => rfl

theorem index_eq (collection place : Value) :
    index fail collection place = Pure.pure (collection.index place) := by
  cases collection with
  | array id elements =>
      cases place with
      | integer n => exact index_array fail id elements n
      | _ => rfl
  | hash id entries => exact index_hash fail id entries place
  | _ => rfl

/-- The number of arguments is tested before the first of them is looked at. -/
theorem arrayArgument_eq (f : Builtin) {wanted : Nat} (h : 0 < wanted)
    (arguments : List Value) :
    arrayArgument fail f wanted arguments = Pure.pure (f.arrayArgument wanted arguments) := by
  unfold arrayArgument Builtin.arrayArgument
  split
  · rfl
  next hlength =>
    cases arguments with
    | nil => exact absurd (Nat.ne_of_lt h) hlength
    | cons first others =>
        rw [element_head, pure_bind]
        cases first <;> rfl

/-- Bodies that agree on all elements make the same function of an array. -/
theorem onArray_eq (f : Builtin) (arguments : List Value) {body body' : List Value → Eval Value}
    (h : ∀ elements, body elements = body' elements) :
    onArray fail f arguments body = f.onArray arguments body' := by
  unfold onArray Builtin.onArray
  rw [arrayArgument_eq fail f Nat.zero_lt_one, pure_bind]
  cases f.arrayArgument 1 arguments with
  | ok elements => exact h elements
  | error reason => rfl

theorem length_eq (arguments : List Value) :
    length fail arguments = Pure.pure (Builtin.length arguments) := by
  unfold length
  split
  next hlength =>
    rcases arguments with _ | ⟨first, _ | ⟨second, others⟩⟩
    · rfl
    · exact absurd rfl hlength
    · simp [Builtin.length]
  next hlength =>
    rcases arguments with _ | ⟨first, _ | ⟨second, others⟩⟩
    · exact absurd nofun hlength
    · rw [element_head, pure_bind]
      cases first <;> rfl
    · exact absurd (by simp) hlength

/-- An end of an array is asked for only if the array is not empty, so none of the seven functions
can fail, whatever its arguments are. -/
theorem builtin_eq (f : Builtin) (arguments : List Value) :
    builtin fail f arguments = f.apply arguments := by
  cases f with
  | len => exact length_eq fail arguments
  | first =>
      apply onArray_eq
      intro elements
      cases elements with
      | nil => rfl
      | cons v vs => exact element_head fail v vs
  | last =>
      apply onArray_eq
      intro elements
      cases hlast : elements.getLast? with
      | none =>
          rw [List.getLast?_eq_none_iff.mp hlast]
          rfl
      | some v =>
          have hne : elements.isEmpty = false := by
            cases elements with
            | nil => cases hlast
            | cons => rfl
          simp only [hne, element_last fail hlast]
          rfl
  | rest => exact onArray_eq fail .rest arguments fun _ => rfl
  | pop => exact onArray_eq fail .pop arguments fun _ => rfl
  | push =>
      simp only [builtin, Builtin.apply]
      rw [arrayArgument_eq fail .push Nat.zero_lt_two, pure_bind]
      rcases arguments with _ | ⟨first, _ | ⟨second, _ | ⟨third, others⟩⟩⟩
      · rfl
      · rfl
      · have hsecond : element fail [first, second] 1 = Pure.pure second :=
          element_of_getElem? fail rfl
        simp only [hsecond, pure_bind]
        cases first <;> rfl
      · rfl
  | puts => rfl

/-- A call of any value goes as it does in the evaluator without operations that fail. -/
theorem apply_eq (stepIn : ScopeId → Eval.Step) (callee : Value) (arguments : List Value) :
    apply fail stepIn callee arguments = Eval.apply stepIn callee arguments := by
  cases callee with
  | builtin f => exact builtin_eq fail f arguments
  | _ => rfl

/-- A key is tested before its value is evaluated. -/
theorem pairs_eq (step : Eval.Step) (nodes : List (Node × Node)) (found : List (Key × Value)) :
    pairs fail step nodes found = Eval.pairs step nodes found := by
  induction nodes generalizing found with
  | nil => rfl
  | cons pair nodes ih =>
      obtain ⟨keyNode, valueNode⟩ := pair
      apply congrArg (Eval.value step keyNode >>= ·)
      funext key
      cases key with
      | integer | boolean | text =>
          apply congrArg (Eval.value step valueNode >>= ·)
          funext v
          cases v with
          | error reason => rfl
          | _ => exact ih _
      | _ => rfl

/-- It does not matter what operations do if they fail. -/
theorem evaluate_eq (levels : Nat) : evaluate fail levels = Scriptlet.evaluate levels := by
  induction levels with
  | zero => rfl
  | succ levels ih =>
      funext scope node
      cases node with
      | ret t found => cases found <;> simp only [evaluate, Scriptlet.evaluate, ih]
      | conditional t condition consequence alternative =>
          cases alternative <;> simp only [evaluate, Scriptlet.evaluate, ih]
      | array | hash | call | binary | index =>
          simp only [evaluate, Scriptlet.evaluate, ih, pairs_eq, apply_eq, binary_eq, index_eq] <;>
            rfl
      | _ => simp only [evaluate, Scriptlet.evaluate, ih]

end Guarded

end Scriptlet
