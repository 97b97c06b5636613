import Scriptlet.Alias.Table
import Scriptlet.Text.Basic
import Scriptlet.Token.Quoting
import Scriptlet.Token.Reader

/-!
Cutting a text into tokens. Blanks and comments, which run from `#` to the end of their line, only
separate tokens. Symbols and words are as long as possible; a word is a keyword, an alias of one,
or an identifier. Text that is no lexeme, such as a quote that is never closed, becomes a `fault`
token, so that reading tokens never fails.
-/

namespace Scriptlet.Lexer

/-- The number of characters of blanks and comments at the start of a text. -/
def layoutLength (cs : List Char) : Nat :=
  go false cs 0
where
  go : Bool → List Char → Nat → Nat
    | _, [], count => count
    | false, c :: cs, count =>
      if Text.isBlank c then go false cs (count + 1)
      else if c == '#' then go true cs (count + 1)
      else count
    | true, c :: cs, count => go (c != '\n') cs (count + 1)

def skipLayout (r : Reader) : Reader :=
  r.skip (layoutLength r.rest)

/-- The longest reserved lexeme of at most two characters at the start of a text. -/
def symbol? (cs : List Char) : Option (String × Kind) :=
  let ofLength? (n : Nat) : Option (String × Kind) :=
    let lexeme := String.ofList (cs.take n)
    if lexeme.length == n then (reservedKind? lexeme).map (lexeme, ·) else none
  ofLength? 2 <|> ofLength? 1

def readSymbol? (r : Reader) : Option (Token × Reader) :=
  (symbol? r.rest).map fun (lexeme, kind) =>
    (⟨kind, lexeme, r.line, r.column⟩, r.skip lexeme.length)

/-- The token of a word: a keyword, else an alias, else an identifier. -/
def wordToken (aliases : AliasTable) (word : String) (line column : Nat) : Token :=
  match reservedKind? word with
  | some kind => ⟨kind, word, line, column⟩
  | none => (aliases.token? word line column).getD ⟨.ident, word, line, column⟩

def readWord (aliases : AliasTable) (r : Reader) : Token × Reader :=
  let (word, after) := r.takeWhile Text.isWordChar
  (wordToken aliases word r.line r.column, after)

/-- Reads a quoted text whose quote is the next character, whatever that is. Without a closing
quote all the rest of the source is one fault. -/
def readQuoted (r : Reader) : Except EndOfText (Token × Reader) :=
  match r.rest with
  | [] => .error ⟨r.line, r.column⟩
  | opening :: cs =>
    match Quoting.scanQuoted opening cs with
    | some (decoded, count) =>
      .ok (⟨.text, String.ofList decoded, r.line, r.column⟩, r.skip (count + 1))
    | none =>
      .ok (⟨.fault, String.ofList r.rest, r.line, r.column⟩, r.skip r.rest.length)

/-- Reads a token at a character that is not layout. -/
def readToken (aliases : AliasTable) (r : Reader) : Token × Reader :=
  match r.rest with
  | [] => (.finish r.line r.column, r)
  | c :: _ =>
    if Text.isWordStart c then readWord aliases r
    else if Text.isDigit c then
      let (digits, after) := r.takeWhile Text.isDigit
      (⟨.number, digits, r.line, r.column⟩, after)
    else if Quoting.isQuote c then
      match readQuoted r with
      | .ok result => result
      | .error _ => (.finish r.line r.column, r)
    else
      (readSymbol? r).getD (⟨.fault, c.toString, r.line, r.column⟩, r.step)

/-- Reads the next token; at the end of the source this is the finishing token, again and again. -/
def next (aliases : AliasTable) (r : Reader) : Token × Reader :=
  readToken aliases (skipLayout r)

/-- Reads all tokens up to the finishing one, which is given apart. Every other token takes at
least one character, so `r.rest.length` bounds their number. -/
def tokens (aliases : AliasTable) (r : Reader) : List Token × Token × Reader :=
  go (r.rest.length + 1) r []
where
  go : Nat → Reader → List Token → List Token × Token × Reader
    | 0, r, read => (read.reverse, .finish r.line r.column, r)
    | fuel + 1, r, read =>
      let (token, after) := next aliases r
      if token.kind = .finish then (read.reverse, token, after)
      else go fuel after (token :: read)

/-- The tokens of a text, and the finishing token at its end. -/
def ofString (aliases : AliasTable) (text : String) : List Token × Token :=
  let (read, finish, _) := tokens aliases (.ofString text)
  (read, finish)

/-- The tokens of a text with the finishing token last. -/
def tokenize (aliases : AliasTable) (text : String) : List Token :=
  let (read, finish) := ofString aliases text
  read ++ [finish]

end Scriptlet.Lexer
