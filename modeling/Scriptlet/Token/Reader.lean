/-!
Reading a text character by character. A reader is a text cut in two at the place where reading
goes on, with the line and column of the next character, both counted from one. The part behind
the cut is kept, nearest character first, so that one can look back.
-/

namespace Scriptlet

structure Reader where
  /-- Characters before the reading position, the nearest first. -/
  past : List Char
  /-- Characters still to be read. -/
  rest : List Char
  position : Nat
  line : Nat
  column : Nat
  deriving DecidableEq

/-- Reading went past the end of the text. -/
structure EndOfText where
  line : Nat
  column : Nat
  deriving DecidableEq

def EndOfText.message (e : EndOfText) : String :=
  "read past end of source (line " ++ toString e.line ++ ", col " ++ toString e.column ++ ")"

namespace Reader

/-- A reader of `text` that starts at `position`, which may lie beyond the end. -/
def startAt (text : String) (position line column : Nat) : Reader :=
  ⟨(text.toList.take position).reverse, text.toList.drop position, position, line, column⟩

def ofString (text : String) : Reader :=
  ⟨[], text.toList, 0, 1, 1⟩

def atEnd (r : Reader) : Bool :=
  r.rest.isEmpty

/-- The character `offset` places ahead, or behind for a negative offset. -/
def peek? (r : Reader) (offset : Int) : Option Char :=
  let index := (r.position : Int) + offset
  if index < 0 then none
  else if index.toNat < r.past.length then r.past[r.past.length - 1 - index.toNat]?
  else r.rest[index.toNat - r.past.length]?

/-- Moves one character over the cut. A newline starts the next line. -/
def step (r : Reader) : Reader :=
  match r.rest with
  | [] => r
  | c :: rest =>
    if c == '\n' then ⟨c :: r.past, rest, r.position + 1, r.line + 1, 1⟩
    else ⟨c :: r.past, rest, r.position + 1, r.line, r.column + 1⟩

/-- Moves `n` characters over the cut, or all there are. -/
def skip (r : Reader) : Nat → Reader
  | 0 => r
  | n + 1 => r.step.skip n

def next (r : Reader) : Except EndOfText (Char × Reader) :=
  match r.rest with
  | [] => .error ⟨r.line, r.column⟩
  | c :: _ => .ok (c, r.step)

def take (r : Reader) (n : Nat) : String × Reader :=
  (String.ofList (r.rest.take n), r.skip n)

def takeWhile (r : Reader) (p : Char → Bool) : String × Reader :=
  r.take (r.rest.takeWhile p).length

end Reader

end Scriptlet
