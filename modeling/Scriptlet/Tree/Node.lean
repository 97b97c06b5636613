import Scriptlet.Token.Basic

/-!
The tree of a program. A node keeps the token it was built from, for messages; what a program means
does not depend on it. The parser only builds trees in which statements and expressions stand
where they belong, but the type allows any node anywhere, and `bare` stands for a node that
belongs to no rule of the language.
-/

namespace Scriptlet

/-- A name with the token that wrote it. -/
structure Ident where
  token : Token
  name : String
  deriving DecidableEq

inductive Node where
  | bare (token : Token)
  | program (statements : List Node)
  | block (token : Token) (statements : List Node)
  | binding (token : Token) (name : Ident) (value : Node)
  | ret (token : Token) (value : Option Node)
  | expression (token : Token) (value : Node)
  | ident (id : Ident)
  | integer (token : Token) (value : Int)
  | boolean (token : Token) (value : Bool)
  | text (token : Token) (value : String)
  | array (token : Token) (elements : List Node)
  | hash (token : Token) (pairs : List (Node × Node))
  | unary (token : Token) (operator : String) (operand : Node)
  | binary (token : Token) (left : Node) (operator : String) (right : Node)
  | conditional (token : Token) (condition consequence : Node) (alternative : Option Node)
  | function (token : Token) (parameters : List Ident) (body : Node)
  | call (token : Token) (callee : Node) (arguments : List Node)
  | index (token : Token) (collection place : Node)

namespace Node

/-- The token of a node; a program has none of its own. -/
def token : Node → Token
  | .program _ => ⟨.other "PROGRAM", "", 0, 0⟩
  | .ident id => id.token
  | .bare t | .block t _ | .binding t _ _ | .ret t _ | .expression t _ | .integer t _
  | .boolean t _ | .text t _ | .array t _ | .hash t _ | .unary t _ _ | .binary t _ _ _
  | .conditional t _ _ _ | .function t _ _ | .call t _ _ | .index t _ _ => t

/-- The name of a node's rule. -/
def kind : Node → String
  | .bare _ => "node"
  | .program _ => "program"
  | .block _ _ => "block_statement"
  | .binding _ _ _ => "let_statement"
  | .ret _ _ => "return_statement"
  | .expression _ _ => "expression_statement"
  | .ident _ => "identifier"
  | .integer _ _ => "integer_literal"
  | .boolean _ _ => "boolean_literal"
  | .text _ _ => "string_literal"
  | .array _ _ => "array_literal"
  | .hash _ _ => "hash_literal"
  | .unary _ _ _ => "prefix_expression"
  | .binary _ _ _ _ => "infix_expression"
  | .conditional _ _ _ _ => "if_expression"
  | .function _ _ _ => "function_literal"
  | .call _ _ _ => "call_expression"
  | .index _ _ _ => "index_expression"

/-- The word that a node's display starts with. -/
def label : Node → String
  | .bare _ => "Node"
  | .program _ => "Program"
  | .block _ _ => "BlockStatement"
  | .binding _ _ _ => "LetStatement"
  | .ret _ _ => "ReturnStatement"
  | .expression _ _ => "ExpressionStatement"
  | .ident _ => "Identifier"
  | .integer _ _ => "IntegerLiteral"
  | .boolean _ _ => "BooleanLiteral"
  | .text _ _ => "StringLiteral"
  | .array _ _ => "ArrayLiteral"
  | .hash _ _ => "HashLiteral"
  | .unary _ _ _ => "PrefixExpression"
  | .binary _ _ _ _ => "InfixExpression"
  | .conditional _ _ _ _ => "IfExpression"
  | .function _ _ _ => "FunctionLiteral"
  | .call _ _ _ => "CallExpression"
  | .index _ _ _ => "IndexExpression"

/-- The text of a node's token; a program shows its first statement's. -/
def literal : Node → String
  | .program [] => ""
  | .program (first :: _) => first.literal
  | n => n.token.value

/-- The nodes directly below a node, in source order. -/
def children : Node → List Node
  | .bare _ | .ident _ | .integer _ _ | .boolean _ _ | .text _ _ => []
  | .program statements | .block _ statements => statements
  | .binding _ name value => [.ident name, value]
  | .ret _ value => value.toList
  | .expression _ value => [value]
  | .array _ elements => elements
  | .hash _ pairs => pairs.flatMap fun (key, value) => [key, value]
  | .unary _ _ operand => [operand]
  | .binary _ left _ right => [left, right]
  | .conditional _ condition consequence alternative =>
    condition :: consequence :: alternative.toList
  | .function _ parameters body => parameters.map .ident ++ [body]
  | .call _ callee arguments => callee :: arguments
  | .index _ collection place => [collection, place]

def statements : Node → List Node
  | .program statements | .block _ statements => statements
  | _ => []

end Node

end Scriptlet
