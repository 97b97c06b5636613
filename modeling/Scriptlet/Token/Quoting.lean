/-!
Quoted texts of the language. `quote` writes a text so that `scanQuoted` reads it back: a
backslash, a double quote, a newline and a tab are escaped and everything else stands as it is.
Reading is more generous than writing: it takes either quote, and a backslash before any other
character just drops away.
-/

namespace Scriptlet.Quoting

def isQuote (c : Char) : Bool :=
  c == '"' || c == '\''

/-- The written form of one character. -/
def escape (c : Char) : List Char :=
  if c == '\\' then ['\\', '\\']
  else if c == '"' then ['\\', '"']
  else if c == '\n' then ['\\', 'n']
  else if c == '\t' then ['\\', 't']
  else [c]

/-- The character meant by a backslash before `c`. -/
def unescape (c : Char) : Char :=
  if c == 'n' then '\n' else if c == 't' then '\t' else c

def quoteChars (cs : List Char) : List Char :=
  '"' :: cs.flatMap escape ++ ['"']

def quote (s : String) : String :=
  String.ofList (quoteChars s.toList)

/-- Reads what follows an opening quote up to the closing one. Gives the decoded text and the
number of characters read, or nothing if the closing quote is missing. -/
def scanQuoted (closing : Char) (cs : List Char) : Option (List Char × Nat) :=
  go cs [] 0
where
  go : List Char → List Char → Nat → Option (List Char × Nat)
    | [], _, _ => none
    | c :: cs, decoded, count =>
      if c == closing then some (decoded.reverse, count + 1)
      else if c == '\\' then
        match cs with
        | [] => none
        | escaped :: cs => go cs (unescape escaped :: decoded) (count + 2)
      else go cs (c :: decoded) (count + 1)

end Scriptlet.Quoting
