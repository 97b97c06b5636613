import Scriptlet.Text.Quoted
import Scriptlet.Token.Quoting
import Scriptlet.Tree.Outline

/-!
The canonical text of a tree. Operators are parenthesised completely, statements are separated by
semicolons and blanks stand in fixed places, so parsing the text gives the tree again.
-/

namespace Scriptlet.Node

def joinStatements (statements : List String) : String :=
  "; ".intercalate statements

def joinItems (items : List String) : String :=
  ", ".intercalate items

def braceStatements (statements : List String) : String :=
  if statements.isEmpty then "\x7b \x7d" else "\x7b " ++ joinStatements statements ++ " \x7d"

mutual

/-- The canonical text of a node. -/
def render : Node → String
  | .bare _ => ""
  | .program statements => joinStatements (renderAll statements)
  | .block _ statements => braceStatements (renderAll statements)
  | .binding _ name value => "let " ++ name.name ++ " = " ++ value.render
  | .ret _ none => "return"
  | .ret _ (some value) => "return " ++ value.render
  | .expression _ value => value.render
  | .ident id => id.name
  | .integer _ value => toString value
  | .boolean _ value => if value then "true" else "false"
  | .text _ value => Quoting.quote value
  | .array _ elements => "[" ++ joinItems (renderAll elements) ++ "]"
  | .hash _ pairs => "\x7b" ++ joinItems (renderPairs pairs) ++ "\x7d"
  | .unary _ operator operand => "(" ++ operator ++ operand.render ++ ")"
  | .binary _ left operator right =>
    "(" ++ left.render ++ " " ++ operator ++ " " ++ right.render ++ ")"
  | .conditional _ condition consequence none =>
    "if (" ++ condition.render ++ ") " ++ consequence.render
  | .conditional _ condition consequence (some alternative) =>
    "if (" ++ condition.render ++ ") " ++ consequence.render ++ " else " ++ alternative.render
  | .function _ parameters body =>
    "fn(" ++ joinItems (parameters.map Ident.name) ++ ") " ++ body.render
  | .call _ callee arguments => callee.render ++ "(" ++ joinItems (renderAll arguments) ++ ")"
  | .index _ collection place => "(" ++ collection.render ++ "[" ++ place.render ++ "])"

def renderAll : List Node → List String
  | [] => []
  | n :: ns => n.render :: renderAll ns

def renderPairs : List (Node × Node) → List String
  | [] => []
  | (key, value) :: pairs => (key.render ++ ": " ++ value.render) :: renderPairs pairs

end

/-- The canonical text of a tree in which every node follows a rule; other trees have none. -/
def canonical? (n : Node) : Option String :=
  if n.outline.mentions "node" then none else some n.render

def display (n : Node) : String :=
  n.label ++ "(" ++ Text.quoted n.render ++ ")"

end Scriptlet.Node
