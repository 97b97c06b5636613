import Scriptlet.Number.Double
import Scriptlet.Text.Quoted

/-!
JSON values. Integers are unbounded and kept apart from numbers with a fraction or an exponent.
The members of an object stand in order, and no name twice.
-/

namespace Scriptlet

inductive Json where
  | null
  | boolean (value : Bool)
  | integer (value : Int)
  | float (value : Double)
  | text (value : String)
  | array (elements : List Json)
  | object (members : List (String × Json))

namespace Json

/-- Adds a member. A name that is there keeps its place and gets the new value. -/
def insertMember (members : List (String × Json)) (name : String) (value : Json) :
    List (String × Json) :=
  match members with
  | [] => [(name, value)]
  | (n, v) :: rest =>
    if n = name then (name, value) :: rest else (n, v) :: insertMember rest name value

mutual

/-- A value as it stands inside another in a message: texts are quoted. -/
def display : Json → String
  | .null => "None"
  | .boolean b => if b then "True" else "False"
  | .integer n => toString n
  | .float x => x.display
  | .text s => Text.quoted s
  | .array elements => "[" ++ ", ".intercalate (displayAll elements) ++ "]"
  | .object members => "\x7b" ++ ", ".intercalate (displayMembers members) ++ "\x7d"

def displayAll : List Json → List String
  | [] => []
  | v :: vs => v.display :: displayAll vs

def displayMembers : List (String × Json) → List String
  | [] => []
  | (name, value) :: members =>
    (Text.quoted name ++ ": " ++ value.display) :: displayMembers members

end

/-- A value on its own in a message: a text stands as it is. -/
def plain : Json → String
  | .text s => s
  | v => v.display

end Json

end Scriptlet
