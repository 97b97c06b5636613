import Scriptlet.Number.Integer
import Scriptlet.Value.Basic

/-!
Operators on values. Integers and texts are compared by their contents, everything else by
identity; a comparison of two different types is simply false. Other operators refuse operands of
different types before they are looked for.
-/

namespace Scriptlet.Value

def integerBinary (operator : String) (a b : Int) : Value :=
  match operator with
  | "+" => .integer (Int64.wrap (a + b))
  | "-" => .integer (Int64.wrap (a - b))
  | "*" => .integer (Int64.wrap (a * b))
  | "/" =>
    match Int64.truncDiv? a b with
    | some quotient => .integer (Int64.wrap quotient)
    | none => .error .divisionByZero
  | "<" => .boolean (a < b)
  | ">" => .boolean (b < a)
  | "==" => .boolean (a = b)
  | "!=" => .boolean (a ≠ b)
  | _ => .error (.unknownBinary .integer operator .integer)

/-- An operator on two texts, which are ordered by code points. -/
def textBinary (operator : String) (a b : String) : Value :=
  match operator with
  | "+" => .text (a ++ b)
  | "<" => .boolean (a < b)
  | ">" => .boolean (b < a)
  | "==" => .boolean (a = b)
  | "!=" => .boolean (a ≠ b)
  | _ => .error (.unknownBinary .text operator .text)

/-- An operator on two values of which at least one is neither integer nor text, or which are of
different types. -/
def otherBinary (operator : String) (left right : Value) : Value :=
  if operator = "==" then .boolean (left.same right)
  else if operator = "!=" then .boolean (!left.same right)
  else if left.tag ≠ right.tag then .error (.mismatch left.tag operator right.tag)
  else
    match operator, left, right with
    | "&&", .boolean a, .boolean b => .boolean (a && b)
    | "||", .boolean a, .boolean b => .boolean (a || b)
    | _, _, _ => .error (.unknownBinary left.tag operator right.tag)

def binary (operator : String) : Value → Value → Value
  | .integer a, .integer b => integerBinary operator a b
  | .text a, .text b => textBinary operator a b
  | left, right => otherBinary operator left right

def unary (operator : String) (operand : Value) : Value :=
  match operator, operand with
  | "!", v => .boolean (!v.isTruthy)
  | "-", .integer n => .integer (Int64.wrap (-n))
  | "+", .integer n => .integer n
  | _, v => .error (.unknownUnary operator v.tag)

/-- The element of an array at a position, or the value of a hash for a key; null where there is
none. -/
def index : Value → Value → Value
  | .array _ elements, .integer n =>
    if 0 ≤ n then elements[n.toNat]?.getD .null else .null
  | .hash _ pairs, place =>
    match place.key? with
    | some key => (pairs.lookup key).getD .null
    | none => .error (.badKey place.tag)
  | collection, _ => .error (.notIndexable collection.tag)

end Scriptlet.Value
