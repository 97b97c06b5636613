import Scriptlet.Number.Integer
import Scriptlet.Parse.Basic

/-!
The rules of the language, by precedence climbing. A rule that needs an expression inside it is
given a parser for expressions, and `expression` ties the knot: an expression nested in another is
parsed with one level less to go, so every rule is an ordinary function. A list, a block or a chain
of operators is a loop, bounded by the tokens that remain.
-/

namespace Scriptlet

/-- How strongly an operator binds its left side; 1 is the strength of everything that continues
no expression. -/
def Kind.strength : Kind → Int
  | .symbol .or => 2
  | .symbol .and => 3
  | .symbol .equal | .symbol .notEqual => 4
  | .symbol .less | .symbol .greater => 5
  | .symbol .plus | .symbol .minus => 6
  | .symbol .times | .symbol .divide => 7
  | .symbol .leftParen | .symbol .leftBracket => 9
  | _ => 1

namespace Parse

def lowest : Int := 1

def unaryStrength : Int := 8

/-- The parser of an expression, given the strength of the operator before it. -/
abbrev Nested := Int → Parse Node

def integerLiteral : Parse Node := do
  let t ← current
  match Numeral.integer? t.value with
  | some n => if n ≤ Int64.maximum then return .integer t n else refuse (.badInteger t.value)
  | none => refuse (.badInteger t.value)

/-- More items after a first one, each behind a comma. `read` holds the items so far, the last one
first. -/
def moreItems (nested : Nested) : Nat → List Node → Parse (List Node)
  | 0, _ => tooDeep
  | fuel + 1, read => do
    if ← aheadIs (.symbol .comma) then
      advance
      advance
      let item ← nested lowest
      moreItems nested fuel (item :: read)
    else
      return read.reverse

/-- Expressions separated by commas up to a closing token. -/
def expressionList (nested : Nested) (closing : Kind) : Parse (List Node) := do
  if ← aheadIs closing then
    advance
    return []
  advance
  let first ← nested lowest
  let items ← moreItems nested (← cursor).turns [first]
  expect closing
  return items

/-- The pairs of a hash, from the token before a key on. -/
def hashPairs (nested : Nested) : Nat → List (Node × Node) → Parse (List (Node × Node))
  | 0, _ => tooDeep
  | fuel + 1, read => do
    advance
    let key ← nested lowest
    expect (.symbol .colon)
    advance
    let value ← nested lowest
    if ← aheadIs (.symbol .comma) then
      advance
      hashPairs nested fuel ((key, value) :: read)
    else
      return ((key, value) :: read).reverse

def hashLiteral (nested : Nested) : Parse Node := do
  let t ← current
  if ← aheadIs (.symbol .rightBrace) then
    advance
    return .hash t []
  let pairs ← hashPairs nested (← cursor).turns []
  expect (.symbol .rightBrace)
  return .hash t pairs

def identAhead : Parse Ident := do
  expect .ident
  let t ← current
  return ⟨t, t.value⟩

def moreParameters : Nat → List Ident → Parse (List Ident)
  | 0, _ => tooDeep
  | fuel + 1, read => do
    if ← aheadIs (.symbol .comma) then
      advance
      let parameter ← identAhead
      moreParameters fuel (parameter :: read)
    else
      return read.reverse

def parameters : Parse (List Ident) := do
  if ← aheadIs (.symbol .rightParen) then
    advance
    return []
  let first ← identAhead
  let names ← moreParameters (← cursor).turns [first]
  expect (.symbol .rightParen)
  return names

def bindingStatement (nested : Nested) : Parse Node := do
  let t ← current
  let name ← identAhead
  expect (.symbol .assign)
  advance
  let value ← nested lowest
  skipIf (.symbol .semicolon)
  return .binding t name value

/-- A return has no value before a semicolon, a closing brace or the end. -/
def returnStatement (nested : Nested) : Parse Node := do
  let t ← current
  let c ← cursor
  if [.symbol .semicolon, .symbol .rightBrace, .finish].contains c.ahead.kind then
    skipIf (.symbol .semicolon)
    return .ret t none
  advance
  let value ← nested lowest
  skipIf (.symbol .semicolon)
  return .ret t (some value)

def expressionStatement (nested : Nested) : Parse Node := do
  let t ← current
  let value ← nested lowest
  skipIf (.symbol .semicolon)
  return .expression t value

def statement (nested : Nested) : Parse Node := do
  let t ← current
  match t.kind with
  | .keyword .letWord => bindingStatement nested
  | .keyword .returnWord => returnStatement nested
  | _ => expressionStatement nested

/-- The statements of a block opened among `depth` braces, its own included. The block ends at the
brace that takes the count below that. -/
def blockStatements (nested : Nested) (depth : Nat) : Nat → List Node → Parse (List Node)
  | 0, _ => tooDeep
  | fuel + 1, read => do
    let c ← cursor
    if c.depth < depth then
      return read.reverse
    if c.current.kind = .finish then
      refuse (.expected (.symbol .rightBrace) c.current)
    let found ← recovering depth (statement nested)
    let read := found.toList ++ read
    if depth ≤ (← cursor).depth then
      advance
    blockStatements nested depth fuel read

/-- The block whose opening brace is the current token. -/
def block (nested : Nested) : Parse Node := do
  let opening ← cursor
  advance
  let statements ← blockStatements nested opening.depth (← cursor).turns []
  return .block opening.current statements

def blockAhead (nested : Nested) : Parse Node := do
  expect (.symbol .leftBrace)
  block nested

def conditional (nested : Nested) : Parse Node := do
  let t ← current
  expect (.symbol .leftParen)
  advance
  let condition ← nested lowest
  expect (.symbol .rightParen)
  let consequence ← blockAhead nested
  if ← aheadIs (.keyword .elseWord) then
    advance
    let alternative ← blockAhead nested
    return .conditional t condition consequence (some alternative)
  else
    return .conditional t condition consequence none

def functionLiteral (nested : Nested) : Parse Node := do
  let t ← current
  expect (.symbol .leftParen)
  let names ← parameters
  let body ← blockAhead nested
  return .function t names body

def grouped (nested : Nested) : Parse Node := do
  advance
  let inner ← nested lowest
  expect (.symbol .rightParen)
  return inner

def unary (nested : Nested) : Parse Node := do
  let t ← current
  advance
  let operand ← nested unaryStrength
  return .unary t t.value operand

def arrayLiteral (nested : Nested) : Parse Node := do
  let t ← current
  let elements ← expressionList nested (.symbol .rightBracket)
  return .array t elements

/-- What the current token begins. -/
def operand (nested : Nested) : Parse Node := do
  let t ← current
  match t.kind with
  | .ident => return .ident ⟨t, t.value⟩
  | .number => integerLiteral
  | .text => return .text t t.value
  | .keyword .trueWord => return .boolean t true
  | .keyword .falseWord => return .boolean t false
  | .symbol .bang | .symbol .minus | .symbol .plus => unary nested
  | .symbol .leftParen => grouped nested
  | .keyword .ifWord => conditional nested
  | .keyword .fnWord => functionLiteral nested
  | .symbol .leftBracket => arrayLiteral nested
  | .symbol .leftBrace => hashLiteral nested
  | _ => refuse (.noExpression t)

def continues : Kind → Bool
  | .symbol .or | .symbol .and | .symbol .equal | .symbol .notEqual | .symbol .less
  | .symbol .greater | .symbol .plus | .symbol .minus | .symbol .times | .symbol .divide
  | .symbol .leftParen | .symbol .leftBracket => true
  | _ => false

/-- The expression that the current token continues, `left` standing before it. -/
def continuation (nested : Nested) (left : Node) : Parse Node := do
  let t ← current
  match t.kind with
  | .symbol .leftParen =>
    let arguments ← expressionList nested (.symbol .rightParen)
    return .call t left arguments
  | .symbol .leftBracket =>
    advance
    let place ← nested lowest
    expect (.symbol .rightBracket)
    return .index t left place
  | kind =>
    advance
    let right ← nested kind.strength
    return .binary t left t.value right

/-- Takes up operators as long as they bind more strongly than the one before the expression. -/
def climb (nested : Nested) (strength : Int) : Nat → Node → Parse Node
  | 0, _ => tooDeep
  | fuel + 1, left => do
    let c ← cursor
    if c.ahead.kind = .symbol .semicolon || c.ahead.kind.strength ≤ strength ||
        !continues c.ahead.kind then
      return left
    advance
    let longer ← continuation nested left
    climb nested strength fuel longer

/-- An expression behind an operator of the given strength, with at most `levels` expressions
nested in each other. -/
def expression : (levels : Nat) → Nested
  | 0, _ => tooDeep
  | levels + 1, strength => do
    let first ← operand (expression levels)
    climb (expression levels) strength (← cursor).turns first

/-- The statements of a whole program; those with diagnostics are left out. -/
def programStatements (nested : Nested) : Nat → List Node → Parse (List Node)
  | 0, _ => tooDeep
  | fuel + 1, read => do
    if (← current).kind = .finish then
      return read.reverse
    let found ← recovering 0 (statement nested)
    advance
    programStatements nested fuel (found.toList ++ read)

def program (levels : Nat) : Parse Node := do
  let statements ← programStatements (expression levels) (← cursor).turns []
  return .program statements

end Parse

/-! Parsing whole programs. Whatever is wrong with a text, the statements that are right are parsed
and everything wrong is told; only a text nested too deeply is not parsed to its end. -/

inductive Reading where
  | parsed (program : Node) (diagnostics : List Diagnostic)
  /-- With what had been recorded when the parser gave up. -/
  | tooDeep (diagnostics : List Diagnostic)

/-- How many expressions may be nested in each other unless said otherwise. -/
def defaultLevels : Nat := 2000

namespace Reading

def ofCursor (levels : Nat) (c : Cursor) : Reading :=
  match Parse.program levels c with
  | .done program after => .parsed program after.diagnostics
  | .refused after => .parsed (.program []) after.diagnostics
  | .tooDeep after => .tooDeep after.diagnostics

def ofTokens (levels : Nat) (tokens : List Token) : Reading :=
  ofCursor levels (.ofTokens tokens)

def ofText (levels : Nat) (aliases : AliasTable) (text : String) : Reading :=
  ofCursor levels (.ofText aliases text)

end Reading

end Scriptlet
