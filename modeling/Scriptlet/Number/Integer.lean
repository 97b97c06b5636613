import Scriptlet.Text.Basic

/-!
Integers of 64 bits: their arithmetic and how they are written.
-/

/-! Signed 64-bit arithmetic on unbounded integers: results are reduced into the range by `wrap`,
and division truncates toward zero. -/

namespace Scriptlet.Int64

def minimum : Int := -0x8000000000000000

def maximum : Int := 0x7FFFFFFFFFFFFFFF

def modulus : Int := 0x10000000000000000

/-- The integer of the 64-bit range that is congruent to `n` modulo `2 ^ 64`. -/
def wrap (n : Int) : Int :=
  (n - minimum) % modulus + minimum

/-- The quotient of the magnitudes, negated if the signs differ; a zero divisor has none. -/
def truncDiv? (a b : Int) : Option Int :=
  if b = 0 then none
  else
    let quotient : Int := (a.natAbs / b.natAbs : Nat)
    some (if decide (a < 0) != decide (b < 0) then -quotient else quotient)

@[simp]
theorem truncDiv?_zero (a : Int) : truncDiv? a 0 = none := rfl

/-- Dividing the magnitudes and putting the sign on afterwards rounds toward zero. -/
theorem truncDiv?_eq_tdiv (a : Int) {b : Int} (h : b ≠ 0) : truncDiv? a b = some (a.tdiv b) := by
  have hnonneg (n : Nat) : decide (Int.ofNat n < 0) = false :=
    decide_eq_false (Int.not_lt.mpr (Int.natCast_nonneg n))
  have hneg (n : Nat) : decide (Int.negSucc n < 0) = true :=
    decide_eq_true (Int.negSucc_lt_zero n)
  rw [truncDiv?, if_neg h]
  cases a <;> cases b <;> simp only [hnonneg, hneg] <;> rfl

end Scriptlet.Int64

/-! Reading an integer from text: blanks around it, one sign, and decimal digits of any script with
single underscores between them. Texts of more than `maxDigits` digits are refused, leading zeros
included. -/

namespace Scriptlet.Numeral

def maxDigits : Nat := 4300

/-- The blanks allowed around a numeral; the four ASCII separators are not among them. -/
def isMargin (c : Char) : Bool :=
  if c.toNat < 128 then (9 ≤ c.toNat && c.toNat ≤ 13) || c.toNat == 32 else Text.isBlank c

def trimMargin (cs : List Char) : List Char :=
  ((cs.dropWhile isMargin).reverse.dropWhile isMargin).reverse

/-- Every underscore stands between two digits and all else is a digit. `afterDigit` tells whether
the character before `cs` is a digit. -/
def wellGrouped : Bool → List Char → Bool
  | afterDigit, [] => afterDigit
  | afterDigit, c :: cs =>
    if c == '_' then afterDigit && wellGrouped false cs
    else (Text.decimalValue? c).isSome && wellGrouped true cs

def natural? (cs : List Char) : Option Nat :=
  let digits := cs.filterMap Text.decimalValue?
  if wellGrouped false cs && digits.length ≤ maxDigits then
    some (digits.foldl (fun n d => 10 * n + d) 0)
  else none

def integer? (text : String) : Option Int :=
  match trimMargin text.toList with
  | '-' :: cs => (natural? cs).map fun n => -(n : Int)
  | '+' :: cs => (natural? cs).map fun n => (n : Int)
  | cs => (natural? cs).map fun n => (n : Int)

theorem toDigits_injective {m n : Nat} (h : Nat.toDigits 10 m = Nat.toDigits 10 n) : m = n := calc
  m = Nat.ofDigitChars 10 (Nat.toDigits 10 m) 0 := Nat.ofDigitChars_ten_toDigits.symm
  _ = Nat.ofDigitChars 10 (Nat.toDigits 10 n) 0 := by rw [h]
  _ = n := Nat.ofDigitChars_ten_toDigits

/-- An integer is known from the text that writes it: a minus sign is no digit. -/
theorem toString_injective {m n : Int} (h : toString m = toString n) : m = n := by
  have hnat (k : Nat) : (toString (Int.ofNat k)).toList = Nat.toDigits 10 k := Nat.toList_repr
  have hneg (k : Nat) :
      (toString (Int.negSucc k)).toList = '-' :: Nat.toDigits 10 (k + 1) := by
    show ("-" ++ Nat.repr (k + 1)).toList = _
    rw [String.toList_append, Nat.toList_repr]
    rfl
  have hminus (k l : Nat) : Nat.toDigits 10 k ≠ '-' :: Nat.toDigits 10 l := by
    intro hsame
    have hdigit : ('-').isDigit = true :=
      Nat.isDigit_of_mem_toDigits (by omega) (by omega) (hsame ▸ List.mem_cons_self)
    exact absurd hdigit (by decide)
  have htext := congrArg String.toList h
  cases m with
  | ofNat a =>
      cases n with
      | ofNat b =>
          rw [hnat, hnat] at htext
          rw [toDigits_injective htext]
      | negSucc b =>
          rw [hnat, hneg] at htext
          exact absurd htext (hminus _ _)
  | negSucc a =>
      cases n with
      | ofNat b =>
          rw [hnat, hneg] at htext
          exact absurd htext.symm (hminus _ _)
      | negSucc b =>
          rw [hneg, hneg, List.cons.injEq] at htext
          rw [Nat.succ.inj (toDigits_injective htext.2)]

end Scriptlet.Numeral
