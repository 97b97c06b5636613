import Scriptlet.Eval.Evaluate
import Scriptlet.Proofs.Tree.Occurrence

/-!
Integer expressions. Operands are whole numbers without bounds and every result is wrapped, but
what comes out is the arithmetic of 64-bit machine words: a value in range is read as the word
with that signed value, and each operator on values is the operator on words. Division is no
ring operation, so this rests on the operands being in range at every step and not only at the
end. The one thing a word has no result for is a divisor of zero.
-/

namespace Scriptlet

namespace Int64

/-- Wrapping gives the signed value of the word that a whole number is cut down to. -/
theorem wrap_eq_toInt (n : Int) : wrap n = (BitVec.ofInt 64 n).toInt := by
  rw [BitVec.toInt_ofInt, Int.bmod_def]
  unfold wrap minimum modulus
  split <;> omega

theorem toInt_ofInt {n : Int} (hnonneg : 0 ≤ n) (hmaximum : n ≤ maximum) :
    (BitVec.ofInt 64 n).toInt = n := by
  unfold maximum at hmaximum
  rw [BitVec.toInt_ofInt]
  exact Int.bmod_eq_of_le (by omega) (by omega)

/-- The magnitude of a dividend by a divisor with its sign, which goes over to the quotient. -/
theorem natAbs_division (a : Int) {b : Int} (h : b ≠ 0) :
    ∃ q r : Int, q = (if b < 0 then -1 else 1) * (a.natAbs / b.natAbs : Nat) ∧
      (a.natAbs : Int) = q * b + r ∧ 0 ≤ r ∧ r ≤ a.natAbs ∧ r.natAbs < b.natAbs := by
  have hmagnitude : (if b < 0 then (-1 : Int) else 1) * b = b.natAbs := by
    split <;> omega
  have hbound : a.natAbs % b.natAbs < b.natAbs := Nat.mod_lt _ (Int.natAbs_pos.mpr h)
  have hpart : a.natAbs % b.natAbs ≤ a.natAbs := Nat.mod_le _ _
  refine ⟨_, (a.natAbs % b.natAbs : Nat), rfl, ?_, by omega, by omega, by omega⟩
  rw [Int.mul_right_comm, hmagnitude]
  exact_mod_cast (Nat.div_add_mod a.natAbs b.natAbs).symm

/-- Division with a remainder that is smaller than the divisor and has the sign of the
dividend. -/
theorem truncDiv?_remainder (a : Int) {b : Int} (h : b ≠ 0) :
    ∃ q r, truncDiv? a b = some q ∧ a = q * b + r ∧ r.natAbs < b.natAbs ∧
      (r = 0 ∨ r.sign = a.sign) := by
  obtain ⟨q, r, hq, hdivision, hnonneg, hpart, hbound⟩ := natAbs_division a h
  have hsign : r = 0 ∨ r.sign = 1 :=
    (Int.lt_or_eq_of_le hnonneg).symm.imp Eq.symm Int.sign_eq_one_of_pos
  rw [truncDiv?, if_neg h]
  -- The divisor's sign is in the quotient; what is left is that of the dividend.
  by_cases ha : a < 0
  · refine ⟨-q, -r, ?_, ?_, by omega, ?_⟩
    · by_cases hb : b < 0 <;> simp [ha, hb, hq]
    · rw [Int.neg_mul]
      omega
    · rw [Int.sign_neg, Int.sign_eq_neg_one_of_neg ha]
      omega
  · refine ⟨q, r, ?_, by omega, hbound, ?_⟩
    · by_cases hb : b < 0 <;> simp [ha, hb, hq]
    · refine hsign.imp_right fun hone => ?_
      have hpos : 0 < r := Int.sign_eq_one_iff_pos.mp hone
      rw [hone, Int.sign_eq_one_of_pos (by omega)]

end Int64

/-! Operators on words, which have no result for an operator they do not know. -/

namespace Word

def unary? (operator : String) (a : BitVec 64) : Option (BitVec 64) :=
  match operator with
  | "-" => some (-a)
  | "+" => some a
  | _ => none

/-- Division is signed and truncates toward zero. The smallest integer divided by minus one has
no quotient in range, and gives itself. -/
def binary? (operator : String) (a b : BitVec 64) : Option (BitVec 64) :=
  match operator with
  | "+" => some (a + b)
  | "-" => some (a - b)
  | "*" => some (a * b)
  | "/" => if b = 0 then none else some (a.sdiv b)
  | _ => none

example : binary? "/" (BitVec.intMin 64) (-1) = some (BitVec.intMin 64) := by decide

theorem unary?_ne_none {operator : String} (h : operator ∈ ["-", "+"]) (a : BitVec 64) :
    unary? operator a ≠ none := by
  simp only [List.mem_cons, List.not_mem_nil, or_false] at h
  rcases h with rfl | rfl <;> exact Option.some_ne_none _

theorem binary?_eq_none_iff {operator : String} (h : operator ∈ ["+", "-", "*", "/"])
    (a b : BitVec 64) : binary? operator a b = none ↔ operator = "/" ∧ b = 0 := by
  simp only [List.mem_cons, List.not_mem_nil, or_false] at h
  rcases h with rfl | rfl | rfl | rfl <;> simp [binary?]

theorem toInt_eq_zero_iff {a : BitVec 64} : a.toInt = 0 ↔ a = 0 := by
  have hzero : (0 : BitVec 64).toInt = 0 := BitVec.toInt_zero
  rw [← hzero, BitVec.toInt_inj]

end Word

/-- The result of an integer expression, given its word. -/
def Value.ofWord? : Option (BitVec 64) → Value
  | some word => .integer word.toInt
  | none => .error .divisionByZero

namespace Value

variable {operator : String}

theorem unary_word (h : operator ∈ ["-", "+"]) (a : BitVec 64) :
    unary operator (.integer a.toInt) = ofWord? (Word.unary? operator a) := by
  simp only [List.mem_cons, List.not_mem_nil, or_false] at h
  rcases h with rfl | rfl
  · simp only [unary, Word.unary?, ofWord?, Int64.wrap_eq_toInt, BitVec.toInt_ofInt,
      BitVec.toInt_neg]
  · rfl

/-- An operator on integers in range is that on their words. -/
theorem binary_word (h : operator ∈ ["+", "-", "*", "/"]) (a b : BitVec 64) :
    binary operator (.integer a.toInt) (.integer b.toInt) =
      ofWord? (Word.binary? operator a b) := by
  simp only [List.mem_cons, List.not_mem_nil, or_false] at h
  rcases h with rfl | rfl | rfl | rfl
  · simp only [binary, integerBinary, Word.binary?, ofWord?, Int64.wrap_eq_toInt,
      BitVec.toInt_ofInt, BitVec.toInt_add]
  · simp only [binary, integerBinary, Word.binary?, ofWord?, Int64.wrap_eq_toInt,
      BitVec.toInt_ofInt, BitVec.toInt_sub]
  · simp only [binary, integerBinary, Word.binary?, ofWord?, Int64.wrap_eq_toInt,
      BitVec.toInt_ofInt, BitVec.toInt_mul]
  · simp only [binary, integerBinary, Word.binary?]
    by_cases hb : b = 0
    · rw [Word.toInt_eq_zero_iff.mpr hb, Int64.truncDiv?_zero, if_pos hb]
      rfl
    · rw [Int64.truncDiv?_eq_tdiv _ (mt Word.toInt_eq_zero_iff.mp hb)]
      simp only [hb, if_false, ofWord?, Int64.wrap_eq_toInt, BitVec.toInt_ofInt,
        BitVec.toInt_sdiv]

theorem ofWord?_eq_zero_iff {word : Option (BitVec 64)} :
    ofWord? word = .integer 0 ↔ word = some 0 := by
  cases word with
  | none => exact ⟨nofun, nofun⟩
  | some w => simp only [ofWord?, integer.injEq, Option.some.injEq, Word.toInt_eq_zero_iff]

end Value

namespace Node

/-- A tree of integer literals, signs and the four operations. -/
inductive Arithmetic : Node → Prop where
  | integer {token : Token} {n : Int} (hnonneg : 0 ≤ n) (hmaximum : n ≤ Int64.maximum) :
      Arithmetic (.integer token n)
  | unary {token : Token} {operator : String} {operand : Node}
      (hoperator : operator ∈ ["-", "+"]) (hoperand : Arithmetic operand) :
      Arithmetic (.unary token operator operand)
  | binary {token : Token} {left right : Node} {operator : String}
      (hoperator : operator ∈ ["+", "-", "*", "/"]) (hleft : Arithmetic left)
      (hright : Arithmetic right) : Arithmetic (.binary token left operator right)

/-- The value of a tree in the arithmetic of machine words. -/
def word? : Node → Option (BitVec 64)
  | .integer _ n => some (.ofInt 64 n)
  | .unary _ operator operand => do
    Word.unary? operator (← operand.word?)
  | .binary _ left operator right => do
    Word.binary? operator (← left.word?) (← right.word?)
  | _ => none

/-- How many operators are nested in each other. -/
def operatorDepth : Node → Nat
  | .unary _ _ operand => operand.operatorDepth + 1
  | .binary _ left _ right => max left.operatorDepth right.operatorDepth + 1
  | _ => 0

/-- A quotient whose divisor has the property stands in the tree. -/
def HasDivisor (node : Node) (property : Node → Prop) : Prop :=
  node.Exposes fun n => ∃ token left right, n = .binary token left "/" right ∧ property right

variable {tree : Node} {levels : Nat}

/-- An integer expression is evaluated to the value of its word, or fails for a zero divisor, and
the machine stays as it is. -/
theorem Arithmetic.evaluate_eq (h : tree.Arithmetic) (hlevels : tree.operatorDepth < levels)
    (scope : ScopeId) (m : Machine) :
    evaluate levels scope tree m = .done (some (.ofWord? tree.word?)) m := by
  induction h generalizing levels with
  | @integer token n hnonneg hmaximum =>
      obtain ⟨levels, rfl⟩ : ∃ n, levels = n + 1 := ⟨levels - 1, by omega⟩
      have hword : Value.ofWord? (some (BitVec.ofInt 64 n)) = .integer n :=
        congrArg Value.integer (Int64.toInt_ofInt hnonneg hmaximum)
      rw [word?, hword]
      rfl
  | @unary token operator operand hoperator _ ih =>
      obtain ⟨levels, rfl⟩ : ∃ n, levels = n + 1 := ⟨levels - 1, by omega⟩
      rw [operatorDepth] at hlevels
      have hrun := ih (show operand.operatorDepth < levels by omega)
      rw [evaluate, Eval.withValue_done hrun, word?]
      cases operand.word? with
      | none => rfl
      | some a =>
          show Outcome.done (some (Value.unary operator (.integer a.toInt))) m = _
          rw [Value.unary_word hoperator]
          rfl
  | @binary token left right operator hoperator _ _ ihleft ihright =>
      obtain ⟨levels, rfl⟩ : ∃ n, levels = n + 1 := ⟨levels - 1, by omega⟩
      rw [operatorDepth] at hlevels
      have hleft := ihleft (show left.operatorDepth < levels by omega)
      have hright := ihright (show right.operatorDepth < levels by omega)
      rw [evaluate, Eval.withValue_done hleft, word?]
      cases left.word? with
      | none => rfl
      | some a =>
          show Eval.withValue _ right _ m = _
          rw [Eval.withValue_done hright]
          cases right.word? with
          | none => rfl
          | some b =>
              show Outcome.done (some (Value.binary operator (.integer a.toInt)
                (.integer b.toInt))) m = _
              rw [Value.binary_word hoperator]
              rfl

section Divisors

variable {property : Node → Prop} {token : Token} {operator : String} {left right : Node}

theorem not_hasDivisor_integer (n : Int) : ¬ (Node.integer token n).HasDivisor property := by
  unfold HasDivisor
  rw [exposes_iff rfl]
  simp [children]

theorem hasDivisor_unary (operand : Node) :
    (Node.unary token operator operand).HasDivisor property ↔ operand.HasDivisor property := by
  unfold HasDivisor
  rw [exposes_iff rfl]
  simp [children]

theorem hasDivisor_binary :
    (Node.binary token left operator right).HasDivisor property ↔
      (operator = "/" ∧ property right) ∨ left.HasDivisor property ∨
        right.HasDivisor property := by
  have hhere : (∃ token' left' right', Node.binary token left operator right =
      .binary token' left' "/" right' ∧ property right') ↔ operator = "/" ∧ property right := by
    constructor
    · rintro ⟨_, _, _, heq, hproperty⟩
      obtain ⟨-, -, rfl, rfl⟩ := Node.binary.inj heq
      exact ⟨rfl, hproperty⟩
    · rintro ⟨rfl, hproperty⟩
      exact ⟨token, left, right, rfl, hproperty⟩
  unfold HasDivisor
  rw [exposes_iff rfl, hhere]
  simp [children]

/-- An integer expression has no word exactly if one of its divisors has the word zero. -/
theorem Arithmetic.word?_eq_none_iff (h : tree.Arithmetic)
    (hlevels : tree.operatorDepth < levels)
    (hzero : ∀ divisor : Node, divisor.Arithmetic → divisor.operatorDepth < levels →
      (property divisor ↔ divisor.word? = some 0)) :
    tree.word? = none ↔ tree.HasDivisor property := by
  induction h with
  | integer => simp [word?, not_hasDivisor_integer]
  | @unary token operator operand hoperator _ ih =>
      rw [operatorDepth] at hlevels
      rw [hasDivisor_unary, ← ih (by omega), word?]
      cases operand.word? with
      | none => simp
      | some a => simpa using Word.unary?_ne_none hoperator a
  | @binary token left right operator hoperator _ hright ihleft ihright =>
      rw [operatorDepth] at hlevels
      have hdivisor := hzero right hright (by omega)
      rw [hasDivisor_binary, ← ihleft (by omega), ← ihright (by omega), hdivisor, word?]
      cases left.word? with
      | none => simp
      | some a =>
          cases right.word? with
          | none => simp
          | some b => simpa using Word.binary?_eq_none_iff hoperator a b

end Divisors

end Node

/-- Integer expressions compute the arithmetic of 64-bit machine words. Whatever the scope and
the machine, such an expression is evaluated to the integer of its word, and gives the error
`division by zero` exactly if one of its divisors is evaluated to zero. Behind the division of
words stands one of whole numbers, whose remainder is smaller than the divisor and has the sign
of the dividend. -/
theorem integers_compute_words :
    (∀ (tree : Node) (levels : Nat) (scope : ScopeId) (m : Machine), tree.Arithmetic →
      tree.operatorDepth < levels →
        (∀ word, tree.word? = some word →
          evaluate levels scope tree m = .done (some (.integer word.toInt)) m) ∧
        (tree.word? = none →
          evaluate levels scope tree m = .done (some (.error .divisionByZero)) m) ∧
        (tree.word? = none ↔ tree.HasDivisor fun divisor =>
          evaluate levels scope divisor m = .done (some (.integer 0)) m)) ∧
    RuntimeError.divisionByZero.message = "division by zero" ∧
    ∀ a b : Int, b ≠ 0 → ∃ q r, Int64.truncDiv? a b = some q ∧ a = q * b + r ∧
      r.natAbs < b.natAbs ∧ (r = 0 ∨ r.sign = a.sign) := by
  refine ⟨?_, rfl, fun a b hb => Int64.truncDiv?_remainder a hb⟩
  intro tree levels scope m htree hlevels
  have hrun := htree.evaluate_eq hlevels scope m
  refine ⟨?_, ?_, ?_⟩
  · intro word hword
    rw [hrun, hword]
    rfl
  · intro hnone
    rw [hrun, hnone]
    rfl
  · apply htree.word?_eq_none_iff hlevels
    intro divisor hdivisor hdepth
    rw [hdivisor.evaluate_eq hdepth, ← Value.ofWord?_eq_zero_iff]
    simp

/-- `(-9223372036854775807 - 1) / -1` -/
def smallestNegated : Node :=
  let smallest : Node := .binary ⟨.symbol .minus, "-", 1, 23⟩
    (.unary ⟨.symbol .minus, "-", 1, 2⟩ "-"
      (.integer ⟨.number, "9223372036854775807", 1, 3⟩ 9223372036854775807)) "-"
    (.integer ⟨.number, "1", 1, 25⟩ 1)
  .binary ⟨.symbol .divide, "/", 1, 28⟩ smallest "/"
    (.unary ⟨.symbol .minus, "-", 1, 30⟩ "-" (.integer ⟨.number, "1", 1, 31⟩ 1))

/-- `1 / (2 - 2)` -/
def dividedByNothing : Node :=
  .binary ⟨.symbol .divide, "/", 1, 3⟩ (.integer ⟨.number, "1", 1, 1⟩ 1) "/"
    (.binary ⟨.symbol .minus, "-", 1, 8⟩ (.integer ⟨.number, "2", 1, 6⟩ 2) "-"
      (.integer ⟨.number, "2", 1, 10⟩ 2))

/-- The one quotient of integers in range that is not in range wraps, and a divisor may be zero
only after it was computed. -/
theorem integers_compute_words_extremes :
    evaluate 4 0 smallestNegated .empty =
        .done (some (.integer (-9223372036854775808))) .empty ∧
      (dividedByNothing.HasDivisor fun divisor =>
        evaluate 4 0 divisor .empty = .done (some (.integer 0)) .empty) ∧
      evaluate 4 0 dividedByNothing .empty = .done (some (.error .divisionByZero)) .empty := by
  have hinteger {token : Token} {n : Int} (h : 0 ≤ n ∧ n ≤ Int64.maximum) :
      (Node.integer token n).Arithmetic := .integer h.1 h.2
  have hsmallest : smallestNegated.Arithmetic :=
    .binary (by decide)
      (.binary (by decide) (.unary (by decide) (hinteger (by decide))) (hinteger (by decide)))
      (.unary (by decide) (hinteger (by decide)))
  have hnothing : dividedByNothing.Arithmetic :=
    .binary (by decide) (hinteger (by decide))
      (.binary (by decide) (hinteger (by decide)) (hinteger (by decide)))
  obtain ⟨hword, -, -⟩ :=
    integers_compute_words.1 smallestNegated 4 0 .empty hsmallest (by decide)
  obtain ⟨-, herror, hdivisor⟩ :=
    integers_compute_words.1 dividedByNothing 4 0 .empty hnothing (by decide)
  have hnone : dividedByNothing.word? = none := by decide
  exact ⟨hword (BitVec.intMin 64) (by decide), hdivisor.mp hnone, herror hnone⟩

end Scriptlet
