import Scriptlet.Token.Lexer

/-!
The place of a parser in a list of tokens: the current token, the one ahead of it, and the rest.
Behind the last token the finishing token comes again and again. The cursor also counts the braces
that are open at the current token and keeps the diagnostics recorded so far.
-/

namespace Scriptlet

/-! What a parser has to say about a text. Each diagnostic names the token it is about, except one
about a number, whose text is message enough. -/

inductive Diagnostic where
  /-- The next token should have been of another kind. -/
  | expected (wanted : Kind) (found : Token)
  /-- No expression starts with this token. -/
  | noExpression (found : Token)
  /-- A number that is not an integer of the language. -/
  | badInteger (text : String)
  deriving DecidableEq

def Token.place (t : Token) : String :=
  "(line " ++ toString t.line ++ ", col " ++ toString t.column ++ ")"

def Diagnostic.message : Diagnostic → String
  | .expected wanted found =>
    "expected next token type \"" ++ wanted.name ++ "\", actual \"" ++ found.kind.name ++ "\" " ++
      found.place
  | .noExpression found =>
    "no prefix parse function for \"" ++ found.kind.name ++ "\" found " ++ found.place
  | .badInteger text => "could not parse \"" ++ text ++ "\" as integer"

/-! Cursors. -/

structure Cursor where
  current : Token
  ahead : Token
  rest : List Token
  /-- Position of the finishing token. -/
  endLine : Nat
  endColumn : Nat
  /-- Braces opened and not closed up to and including `current`. -/
  depth : Nat
  /-- In the order in which they were recorded. -/
  diagnostics : List Diagnostic

namespace Cursor

/-- The number of open braces after a token of this kind; a stray closing brace closes none. -/
def depthAfter (depth : Nat) : Kind → Nat
  | .symbol .leftBrace => depth + 1
  | .symbol .rightBrace => depth - 1
  | _ => depth

def advance (c : Cursor) : Cursor :=
  let depth := depthAfter c.depth c.ahead.kind
  match c.rest with
  | [] => { c with current := c.ahead, ahead := .finish c.endLine c.endColumn, depth }
  | t :: rest => { c with current := c.ahead, ahead := t, rest, depth }

/-- A cursor on the first token of a list, with the position of the finishing token. -/
def start (tokens : List Token) (endLine endColumn : Nat) : Cursor :=
  let before : Cursor := ⟨.finish 0 0, .finish 0 0, tokens, endLine, endColumn, 0, []⟩
  before.advance.advance

/-- A cursor over a plain list of tokens, which finishes where its last token stands. -/
def ofTokens (tokens : List Token) : Cursor :=
  let finish := Token.finishOf tokens
  start tokens finish.line finish.column

def ofText (aliases : AliasTable) (text : String) : Cursor :=
  let (tokens, finish) := Lexer.ofString aliases text
  start tokens finish.line finish.column

def record (c : Cursor) (d : Diagnostic) : Cursor :=
  { c with diagnostics := c.diagnostics ++ [d] }

/-- After `rest.length + 2` moves the finishing token is the current one and stays so. One turn more
is enough for every loop that moves on in each turn but the last. -/
def turns (c : Cursor) : Nat :=
  c.rest.length + 3

/-- Skips the rest of a statement begun among `depth` open braces: up to a semicolon among as many,
to the brace that closes the block around it, or to the end. Braces opened by the statement itself
are skipped with what they hold. -/
def synchronize (depth : Int) (c : Cursor) : Cursor :=
  go c.turns c
where
  go : Nat → Cursor → Cursor
    | 0, c => c
    | fuel + 1, c =>
      if c.current.kind = .finish || (c.depth : Int) < depth then c
      else if c.current.kind = .symbol .semicolon && (c.depth : Int) = depth then c
      else go fuel c.advance

end Cursor

end Scriptlet
