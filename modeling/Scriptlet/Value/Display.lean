import Scriptlet.Number.Integer
import Scriptlet.Tree.Printer
import Scriptlet.Value.Basic

/-!
The text of a value, as programs print it and as messages show it.
-/

namespace Scriptlet

def Key.inspect : Key → String
  | .integer n => toString n
  | .boolean b => if b then "true" else "false"
  | .text s => s

namespace Value

def functionText (parameters : List String) (body : Node) : String :=
  "fn(" ++ ", ".intercalate parameters ++ ") " ++ body.render

mutual

/-- The text that printing a value gives. -/
def inspect : Value → String
  | .integer n => toString n
  | .boolean b => if b then "true" else "false"
  | .text s => s
  | .null => "null"
  | .array _ elements => "[" ++ ", ".intercalate (inspectAll elements) ++ "]"
  | .hash _ pairs => "\x7b" ++ ", ".intercalate (inspectPairs pairs) ++ "\x7d"
  | .function _ parameters body _ => functionText parameters body
  | .builtin _ => "builtin function"
  | .returned _ value => value.inspect
  | .error reason => "ERROR: " ++ reason.message

def inspectAll : List Value → List String
  | [] => []
  | v :: vs => v.inspect :: inspectAll vs

def inspectPairs : List (Key × Value) → List String
  | [] => []
  | (key, value) :: pairs => (key.inspect ++ ": " ++ value.inspect) :: inspectPairs pairs

end

/-- The word that a value's display starts with. -/
def label : Value → String
  | .integer _ => "Integer"
  | .boolean _ => "Boolean"
  | .text _ => "String"
  | .null => "Null"
  | .array _ _ => "Array"
  | .hash _ _ => "Hash"
  | .function _ _ _ _ => "Function"
  | .builtin _ => "Builtin"
  | .returned _ _ => "ReturnValue"
  | .error _ => "Error"

def display (v : Value) : String :=
  v.label ++ "(" ++ Text.quoted v.inspect ++ ")"

end Value

def Key.parts : Key → String × String
  | .integer n => ("INTEGER", toString n)
  | .boolean b => ("BOOLEAN", if b then "1" else "0")
  | .text s => ("STRING", s)

/-- Type and contents together tell a key from every other. -/
theorem Key.parts_injective {a b : Key} (h : a.parts = b.parts) : a = b := by
  have htype := congrArg Prod.fst h
  have hcontents := congrArg Prod.snd h
  cases a <;> cases b
  case integer.integer => exact congrArg Key.integer (Numeral.toString_injective hcontents)
  case boolean.boolean x y =>
    cases x <;> cases y
    all_goals first | rfl | exact absurd hcontents (by decide)
  case text.text => exact congrArg Key.text hcontents
  all_goals simp [parts] at htype

end Scriptlet
