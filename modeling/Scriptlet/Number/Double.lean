/-!
Numbers of binary floating point with 53 bits, held exactly as a mantissa and a power of two, so
that reading and writing them is arithmetic on natural numbers. A decimal is read as the nearest
number, the even one of two; a number is written with the fewest digits that read back as it, and
of those with the ones that come nearest.
-/

namespace Scriptlet

inductive Double where
  | nan
  | infinite (negative : Bool)
  /-- `mantissa * 2 ^ exponent`, with the sign kept apart so that zero has one. -/
  | finite (negative : Bool) (mantissa : Nat) (exponent : Int)
  deriving DecidableEq

namespace Double

/-- The quotient rounded to the nearest natural number, a half to the even one. -/
def roundDiv (a b : Nat) : Nat :=
  let quotient := a / b
  let twice := 2 * (a % b)
  if twice < b then quotient
  else if b < twice then quotient + 1
  else quotient + quotient % 2

/-- The number `n * base ^ e` as a fraction. -/
def scaled (n base : Nat) (e : Int) : Nat × Nat :=
  if 0 ≤ e then (n * base.pow e.toNat, 1) else (n, base.pow (-e).toNat)

/-- Every mantissa is smaller; this is 2 to the 53rd. -/
def mantissaBound : Nat := 0x20000000000000

/-- The exponent at which a positive fraction has a mantissa of 53 bits, or the least exponent. -/
def exponentOf (num den : Nat) : Int :=
  let guess := max ((Nat.log2 num : Int) - Nat.log2 den - 53) (-1074)
  let (a, b) := scaled num 2 (-guess)
  if mantissaBound ≤ a / (b * den) then guess + 1 else guess

def ofFraction (negative : Bool) (num den : Nat) : Double :=
  let exponent := exponentOf num den
  let (a, b) := scaled num 2 (-exponent)
  let mantissa := roundDiv a (b * den)
  let (mantissa, exponent) :=
    if mantissa = mantissaBound then (mantissaBound / 2, exponent + 1) else (mantissa, exponent)
  if 971 < exponent then .infinite negative else .finite negative mantissa exponent

/-- The number nearest to `digits * 10 ^ e`. Decimals far out of range are not computed. -/
def ofDecimal (negative : Bool) (digits : Nat) (e : Int) : Double :=
  let magnitude := ((toString digits).length : Int) + e
  if digits = 0 || magnitude < -400 then .finite negative 0 (-1074)
  else if 400 < magnitude then .infinite negative
  else
    let (num, den) := scaled digits 10 e
    ofFraction negative num den

/-- The power of ten of the leading digit of a positive fraction. -/
def leadingPower (num den : Nat) : Int :=
  if den ≤ num then ((toString (num / den)).length : Int) - 1
  else -((toString ((den + num - 1) / num - 1)).length : Int)

/-- Digits, and the power of ten of the last of them, of the decimal nearest to a fraction among
those that are written with `count` digits and read back as `x`; of two as near, the even one. -/
def decimalOf? (x : Double) (num den : Nat) (count : Nat) : Option (Nat × Int) :=
  let last := leadingPower num den - (count - 1)
  let (a, b) := scaled num 10 (-last)
  let low := a / (b * den)
  let isX (digits : Nat) : Bool := ofDecimal false digits last = x
  let twice := 2 * (a % (b * den))
  let lowNearer : Bool := twice < b * den || (twice = b * den && low % 2 = 0)
  match isX low, isX (low + 1) with
  | true, true => some (if lowNearer then low else low + 1, last)
  | true, false => some (low, last)
  | false, true => some (low + 1, last)
  | false, false => none

/-- The fewest digits that read back, without zeros at the end, and the power of ten of the last. -/
def shortest (mantissa : Nat) (exponent : Int) : List Char × Int :=
  let (num, den) := scaled mantissa 2 exponent
  let x := Double.finite false mantissa exponent
  match (List.range 17).findSome? fun i => decimalOf? x num den (i + 1) with
  | none => (['0'], 0)
  | some (digits, last) =>
    let all := (toString digits).toList
    let kept := (all.reverse.dropWhile (· == '0')).reverse
    (kept, last + (all.length - kept.length))

/-- Digits with a point, if the point stands near them; else with a power of ten of two digits or
more. -/
def layout (digits : List Char) (last : Int) : String :=
  let point := (digits.length : Int) + last
  if -4 < point && point ≤ 16 then
    if point ≤ 0 then
      "0." ++ String.ofList (List.replicate (-point).toNat '0' ++ digits)
    else if (digits.length : Int) ≤ point then
      String.ofList (digits ++ List.replicate last.toNat '0') ++ ".0"
    else
      String.ofList (digits.take point.toNat) ++ "." ++ String.ofList (digits.drop point.toNat)
  else
    let power := point - 1
    let head := String.ofList (digits.take 1)
    let tail := if digits.length ≤ 1 then "" else "." ++ String.ofList (digits.drop 1)
    let size := toString power.natAbs
    head ++ tail ++ "e" ++ (if power < 0 then "-" else "+") ++
      (if size.length < 2 then "0" ++ size else size)

def display : Double → String
  | .nan => "nan"
  | .infinite negative => if negative then "-inf" else "inf"
  | .finite negative mantissa exponent =>
    let sign := if negative then "-" else ""
    if mantissa = 0 then sign ++ "0.0"
    else
      let (digits, last) := shortest mantissa exponent
      sign ++ layout digits last

def isInteger : Double → Int → Bool
  | .finite negative mantissa exponent, n =>
    let (num, den) := scaled mantissa 2 exponent
    (if negative then -(num : Int) else num) == n * den
  | _, _ => false

/-- Equality of numbers: the zeros are equal, and what is no number equals nothing. -/
def equals : Double → Double → Bool
  | .finite a m e, .finite b n f => (m == 0 && n == 0) || (a == b && m == n && e == f)
  | .infinite a, .infinite b => a == b
  | _, _ => false

end Double

end Scriptlet
