import Scriptlet.Tree.Node

/-!
The outline of a tree: for each node its rule, the name, operator or literal it holds, its position
and the outlines of the nodes below it, in source order.
-/

namespace Scriptlet

/-- What a node itself holds besides the nodes below it. -/
inductive Scalar where
  | none
  | text (value : String)
  | integer (value : Int)
  | boolean (value : Bool)
  deriving DecidableEq

inductive Outline where
  | node (kind : String) (value : Scalar) (line column : Nat) (children : List Outline)

namespace Outline

mutual

/-- Whether a rule occurs anywhere in an outline. -/
def mentions (kind : String) : Outline → Bool
  | .node own _ _ _ children => own == kind || mentionsAny kind children

def mentionsAny (kind : String) : List Outline → Bool
  | [] => false
  | o :: os => o.mentions kind || mentionsAny kind os

end

end Outline

namespace Node

def scalar : Node → Scalar
  | .ident id => .text id.name
  | .binding _ name _ => .text name.name
  | .integer _ value => .integer value
  | .boolean _ value => .boolean value
  | .text _ value => .text value
  | .unary _ operator _ | .binary _ _ operator _ => .text operator
  | _ => .none

/-- The token whose position a node has in its outline: a program begins where its first statement
does. -/
def positionToken : Node → Token
  | .program (first :: _) => first.token
  | n => n.token

/-- A node's outline, given those of the nodes below it. -/
def outlineWith (n : Node) (children : List Outline) : Outline :=
  .node n.kind n.scalar n.positionToken.line n.positionToken.column children

mutual

def outline : Node → Outline
  | .program statements => outlineWith (.program statements) (outlineAll statements)
  | .block t statements => outlineWith (.block t statements) (outlineAll statements)
  | .binding t name value =>
    outlineWith (.binding t name value) [outlineWith (.ident name) [], value.outline]
  | .ret t (some value) => outlineWith (.ret t value) [value.outline]
  | .expression t value => outlineWith (.expression t value) [value.outline]
  | .array t elements => outlineWith (.array t elements) (outlineAll elements)
  | .hash t pairs => outlineWith (.hash t pairs) (outlinePairs pairs)
  | .unary t operator operand => outlineWith (.unary t operator operand) [operand.outline]
  | .binary t left operator right =>
    outlineWith (.binary t left operator right) [left.outline, right.outline]
  | .conditional t condition consequence none =>
    outlineWith (.conditional t condition consequence none)
      [condition.outline, consequence.outline]
  | .conditional t condition consequence (some alternative) =>
    outlineWith (.conditional t condition consequence alternative)
      [condition.outline, consequence.outline, alternative.outline]
  | .function t parameters body =>
    outlineWith (.function t parameters body)
      (parameters.map (fun p => outlineWith (.ident p) []) ++ [body.outline])
  | .call t callee arguments =>
    outlineWith (.call t callee arguments) (callee.outline :: outlineAll arguments)
  | .index t collection place =>
    outlineWith (.index t collection place) [collection.outline, place.outline]
  | n => outlineWith n []

def outlineAll : List Node → List Outline
  | [] => []
  | n :: ns => n.outline :: outlineAll ns

def outlinePairs : List (Node × Node) → List Outline
  | [] => []
  | (key, value) :: pairs => key.outline :: value.outline :: outlinePairs pairs

end

end Node

end Scriptlet
