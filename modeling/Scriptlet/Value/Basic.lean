import Scriptlet.Tree.Node

/-!
The values of the language. Arrays, hashes, functions and return wrappers carry the number under
which they were made: two of them are one and the same exactly if their numbers agree, however
alike they look. A return wrapper is a value like any other, and so is an error.
-/

namespace Scriptlet

/-- The type of a value, as messages name it. -/
inductive TypeTag where
  | integer
  | boolean
  | text
  | null
  | array
  | hash
  | function
  | builtin
  | returned
  | error
  deriving DecidableEq

def TypeTag.name : TypeTag → String
  | .integer => "INTEGER"
  | .boolean => "BOOLEAN"
  | .text => "STRING"
  | .null => "NULL"
  | .array => "ARRAY"
  | .hash => "HASH"
  | .function => "FUNCTION"
  | .builtin => "BUILTIN"
  | .returned => "RETURN_VALUE"
  | .error => "ERROR"

/-- Functions that every program has. -/
inductive Builtin where
  | len
  | first
  | last
  | rest
  | pop
  | push
  | puts
  deriving DecidableEq

namespace Builtin

def all : List Builtin :=
  [.len, .first, .last, .rest, .pop, .push, .puts]

def name : Builtin → String
  | .len => "len"
  | .first => "first"
  | .last => "last"
  | .rest => "rest"
  | .pop => "pop"
  | .push => "push"
  | .puts => "puts"

def ofName? (name : String) : Option Builtin :=
  all.find? (·.name == name)

end Builtin

inductive RuntimeError where
  | notFound (name : String)
  | unknownUnary (operator : String) (operand : TypeTag)
  | unknownBinary (left : TypeTag) (operator : String) (right : TypeTag)
  | mismatch (left : TypeTag) (operator : String) (right : TypeTag)
  | divisionByZero
  | badKey (key : TypeTag)
  | notIndexable (collection : TypeTag)
  | argumentCount (wanted given : Nat)
  | notFunction (callee : TypeTag)
  | builtinCount (builtin : Builtin) (wanted given : Nat)
  | builtinType (builtin : Builtin) (wanted : List TypeTag) (given : TypeTag)
  /-- An error stated from outside by its message. -/
  | stated (message : String)
  deriving DecidableEq

def RuntimeError.message : RuntimeError → String
  | .notFound name => "identifier not found: " ++ name
  | .unknownUnary operator operand => "unknown operator: " ++ operator ++ operand.name
  | .unknownBinary left operator right =>
    "unknown operator: " ++ left.name ++ " " ++ operator ++ " " ++ right.name
  | .mismatch left operator right =>
    "type mismatch: " ++ left.name ++ " " ++ operator ++ " " ++ right.name
  | .divisionByZero => "division by zero"
  | .badKey key => "unusable as hash key: " ++ key.name
  | .notIndexable collection => "index operator not supported: " ++ collection.name
  | .argumentCount wanted given =>
    "wrong number of arguments: want=" ++ toString wanted ++ ", got=" ++ toString given
  | .notFunction callee => "not a function: " ++ callee.name
  | .builtinCount builtin wanted given =>
    "number of arguments for `" ++ builtin.name ++ "` expected " ++ toString wanted ++
      ", actual " ++ toString given
  | .builtinType builtin wanted given =>
    "argument type of `" ++ builtin.name ++ "` expected " ++
      " or ".intercalate (wanted.map TypeTag.name) ++ ", actual " ++ given.name
  | .stated message => message

inductive Key where
  | integer (value : Int)
  | boolean (value : Bool)
  | text (value : String)
  deriving DecidableEq

/-- The number of a scope in the order of creation. -/
abbrev ScopeId := Nat

inductive Value where
  | integer (value : Int)
  | boolean (value : Bool)
  | text (value : String)
  | null
  | array (id : Nat) (elements : List Value)
  | hash (id : Nat) (pairs : List (Key × Value))
  | function (id : Nat) (parameters : List String) (body : Node) (scope : ScopeId)
  | builtin (builtin : Builtin)
  | returned (id : Nat) (value : Value)
  | error (reason : RuntimeError)

namespace Value

def tag : Value → TypeTag
  | .integer _ => .integer
  | .boolean _ => .boolean
  | .text _ => .text
  | .null => .null
  | .array _ _ => .array
  | .hash _ _ => .hash
  | .function _ _ _ _ => .function
  | .builtin _ => .builtin
  | .returned _ _ => .returned
  | .error _ => .error

/-- Only `false` and `null` are not. -/
def isTruthy : Value → Bool
  | .boolean b => b
  | .null => false
  | _ => true

def isError : Value → Bool
  | .error _ => true
  | _ => false

/-- Whether a value ends the statements it comes from. -/
def isExit : Value → Bool
  | .error _ | .returned _ _ => true
  | _ => false

/-- A value without the return wrapper around it. -/
def unwrap : Value → Value
  | .returned _ value => value
  | value => value

def key? : Value → Option Key
  | .integer n => some (.integer n)
  | .boolean b => some (.boolean b)
  | .text s => some (.text s)
  | _ => none

/-- One and the same value. Only values of the types that are not compared by their contents come
here, so an error is never the same as another. -/
def same : Value → Value → Bool
  | .boolean a, .boolean b => a == b
  | .null, .null => true
  | .builtin f, .builtin g => f == g
  | .array i _, .array j _ | .hash i _, .hash j _ | .function i _ _ _, .function j _ _ _
  | .returned i _, .returned j _ => i == j
  | _, _ => false

end Value

def Key.toValue : Key → Value
  | .integer n => .integer n
  | .boolean b => .boolean b
  | .text s => .text s

/-- Enters a pair into the pairs of a hash. A key that is there keeps its place and gets the new
value; any other comes last. -/
def insertPair (pairs : List (Key × Value)) (key : Key) (value : Value) : List (Key × Value) :=
  match pairs with
  | [] => [(key, value)]
  | (k, v) :: rest => if k = key then (key, value) :: rest else (k, v) :: insertPair rest key value

end Scriptlet
