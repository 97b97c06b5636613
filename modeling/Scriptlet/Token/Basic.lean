/-!
The vocabulary of the language: the kinds of token, the reserved lexemes, and tokens with the
position of their first character.
-/

namespace Scriptlet

/-- The kinds that a user may give another spelling. -/
inductive Keyword where
  | letWord
  | returnWord
  | ifWord
  | elseWord
  | fnWord
  | trueWord
  | falseWord
  deriving DecidableEq

inductive Symbol where
  | assign
  | plus
  | minus
  | times
  | divide
  | bang
  | less
  | greater
  | equal
  | notEqual
  | and
  | or
  | comma
  | colon
  | semicolon
  | leftParen
  | rightParen
  | leftBrace
  | rightBrace
  | leftBracket
  | rightBracket
  deriving DecidableEq

/-- What a token is. `fault` marks text that is no lexeme, `finish` the end of the source, and
`other` a kind that no rule of the language knows. -/
inductive Kind where
  | ident
  | number
  | text
  | fault
  | finish
  | keyword (word : Keyword)
  | symbol (mark : Symbol)
  | other (name : String)
  deriving DecidableEq

def Keyword.all : List Keyword :=
  [.letWord, .returnWord, .ifWord, .elseWord, .fnWord, .trueWord, .falseWord]

def Keyword.name : Keyword → String
  | .letWord => "LET"
  | .returnWord => "RETURN"
  | .ifWord => "IF"
  | .elseWord => "ELSE"
  | .fnWord => "FUNC"
  | .trueWord => "TRUE"
  | .falseWord => "FALSE"

def Keyword.lexeme : Keyword → String
  | .letWord => "let"
  | .returnWord => "return"
  | .ifWord => "if"
  | .elseWord => "else"
  | .fnWord => "fn"
  | .trueWord => "true"
  | .falseWord => "false"

def Keyword.ofName? (name : String) : Option Keyword :=
  Keyword.all.find? (·.name == name)

def Symbol.all : List Symbol :=
  [.assign, .plus, .minus, .times, .divide, .bang, .less, .greater, .equal, .notEqual, .and, .or,
   .comma, .colon, .semicolon, .leftParen, .rightParen, .leftBrace, .rightBrace, .leftBracket,
   .rightBracket]

def Symbol.name : Symbol → String
  | .assign => "ASSIGN"
  | .plus => "PLUS"
  | .minus => "SUB"
  | .times => "MULT"
  | .divide => "DIV"
  | .bang => "NOT"
  | .less => "LT"
  | .greater => "GT"
  | .equal => "EQ"
  | .notEqual => "NE"
  | .and => "AND"
  | .or => "OR"
  | .comma => "COMMA"
  | .colon => "COLON"
  | .semicolon => "SEMICOLON"
  | .leftParen => "LPAREN"
  | .rightParen => "RPAREN"
  | .leftBrace => "LBRACE"
  | .rightBrace => "RBRACE"
  | .leftBracket => "LBRACK"
  | .rightBracket => "RBRACK"

def Symbol.lexeme : Symbol → String
  | .assign => "="
  | .plus => "+"
  | .minus => "-"
  | .times => "*"
  | .divide => "/"
  | .bang => "!"
  | .less => "<"
  | .greater => ">"
  | .equal => "=="
  | .notEqual => "!="
  | .and => "&&"
  | .or => "||"
  | .comma => ","
  | .colon => ":"
  | .semicolon => ";"
  | .leftParen => "("
  | .rightParen => ")"
  | .leftBrace => "\x7b"
  | .rightBrace => "\x7d"
  | .leftBracket => "["
  | .rightBracket => "]"

def Kind.name : Kind → String
  | .ident => "IDENT"
  | .number => "NUMBER"
  | .text => "STRING"
  | .fault => "ERROR"
  | .finish => "EOF"
  | .keyword word => word.name
  | .symbol mark => mark.name
  | .other name => name

/-- The kind of a name; a name that the language does not use is kept as `other`. -/
def Kind.ofName (name : String) : Kind :=
  let plain := [Kind.ident, .number, .text, .fault, .finish]
  match (plain ++ Keyword.all.map Kind.keyword ++ Symbol.all.map Kind.symbol).find?
      (·.name == name) with
  | some kind => kind
  | none => .other name

/-- Reserved words and symbols with their kinds. -/
def reserved : List (String × Kind) :=
  Keyword.all.map (fun word => (word.lexeme, .keyword word)) ++
    Symbol.all.map (fun mark => (mark.lexeme, .symbol mark))

def reservedKind? (lexeme : String) : Option Kind :=
  reserved.lookup lexeme

/-- A lexeme with its kind. For a quoted text `value` is its decoded contents, for every other
token of a source it is the source text itself. -/
structure Token where
  kind : Kind
  value : String
  line : Nat := 0
  column : Nat := 0
  deriving DecidableEq

namespace Token

def finish (line column : Nat) : Token :=
  ⟨.finish, "EOF", line, column⟩

/-- Kind and value, the form in which tokens are listed. -/
def display (t : Token) : String :=
  "Token(" ++ t.kind.name ++ ", " ++ t.value ++ ")"

/-- What follows the last token of a list: the end of the source, at that token's position. -/
def finishOf (tokens : List Token) : Token :=
  match tokens.getLast? with
  | some last => finish last.line last.column
  | none => finish 0 0

end Token

end Scriptlet
