import Scriptlet.Text.Quoted

/-!
Text files: where they come from, and what can be wrong with them. A file is UTF-8, and each of the
three ways to end a line is read as a newline.
-/

/-! Decoding UTF-8. The first octet of a character tells how many follow and what the second may be;
a text is refused at the first character that is cut short or wrong, with the octets that could
still have been right. -/

namespace Scriptlet.Utf8

inductive Problem where
  | badStart
  | badContinuation
  | cutShort
  deriving DecidableEq

def Problem.message : Problem → String
  | .badStart => "invalid start byte"
  | .badContinuation => "invalid continuation byte"
  | .cutShort => "unexpected end of data"

/-- A problem with the octets from `start` up to `stop`, the first of which is `octet`. -/
structure Fault where
  problem : Problem
  octet : Nat
  start : Nat
  stop : Nat
  deriving DecidableEq

def Fault.message (f : Fault) : String :=
  let octets :=
    if f.stop = f.start + 1 then
      "byte 0x" ++ String.ofList (Text.hexDigits 2 f.octet) ++ " in position " ++ toString f.start
    else "bytes in position " ++ toString f.start ++ "-" ++ toString (f.stop - 1)
  "'utf-8' codec can't decode " ++ octets ++ ": " ++ f.problem.message

/-- A character of which some octets have been read. -/
structure Partial where
  octet : Nat
  start : Nat
  code : Nat
  /-- Octets still to come. -/
  owed : Nat
  /-- Bounds of the next octet. -/
  low : Nat
  high : Nat

/-- What an octet from 128 on begins at offset `start`. -/
def begin? (octet start : Nat) : Option Partial :=
  if 0xC2 ≤ octet && octet ≤ 0xDF then some ⟨octet, start, octet - 0xC0, 1, 0x80, 0xBF⟩
  else if octet = 0xE0 then some ⟨octet, start, 0, 2, 0xA0, 0xBF⟩
  else if octet = 0xED then some ⟨octet, start, 0xD, 2, 0x80, 0x9F⟩
  else if 0xE1 ≤ octet && octet ≤ 0xEF then some ⟨octet, start, octet - 0xE0, 2, 0x80, 0xBF⟩
  else if octet = 0xF0 then some ⟨octet, start, 0, 3, 0x90, 0xBF⟩
  else if octet = 0xF4 then some ⟨octet, start, 4, 3, 0x80, 0x8F⟩
  else if 0xF1 ≤ octet && octet ≤ 0xF3 then some ⟨octet, start, octet - 0xF0, 3, 0x80, 0xBF⟩
  else none

/-- Decodes from `offset` on. `read` holds the characters so far, the last one first. -/
def decodeFrom : List UInt8 → Nat → Option Partial → List Char → Except Fault (List Char)
  | [], _, none, read => .ok read.reverse
  | [], offset, some p, _ => .error ⟨.cutShort, p.octet, p.start, offset⟩
  | b :: bytes, offset, none, read =>
    let octet := b.toNat
    if octet < 0x80 then decodeFrom bytes (offset + 1) none (Char.ofNat octet :: read)
    else
      match begin? octet offset with
      | some p => decodeFrom bytes (offset + 1) (some p) read
      | none => .error ⟨.badStart, octet, offset, offset + 1⟩
  | b :: bytes, offset, some p, read =>
    let octet := b.toNat
    if octet < p.low || p.high < octet then
      .error ⟨.badContinuation, p.octet, p.start, offset⟩
    else
      let code := p.code * 64 + (octet - 0x80)
      if p.owed ≤ 1 then decodeFrom bytes (offset + 1) none (Char.ofNat code :: read)
      else
        let more := { p with code, owed := p.owed - 1, low := 0x80, high := 0xBF }
        decodeFrom bytes (offset + 1) (some more) read

def decode (bytes : List UInt8) : Except Fault (List Char) :=
  decodeFrom bytes 0 none []

end Scriptlet.Utf8

namespace Scriptlet

inductive FileError where
  | missing (path : String)
  | isDirectory (path : String)
  /-- The path holds a NUL, which no path can. -/
  | badPath
  | notUtf8 (fault : Utf8.Fault)
  deriving DecidableEq

def FileError.message : FileError → String
  | .missing path => "[Errno 2] No such file or directory: " ++ Text.quoted path
  | .isDirectory path => "[Errno 21] Is a directory: " ++ Text.quoted path
  | .badPath => "embedded null byte"
  | .notUtf8 fault => fault.message

/-- The contents of files by their paths. -/
def Files : Type :=
  String → Except FileError (List UInt8)

def unifyNewlines : List Char → List Char
  | [] => []
  | '\r' :: '\n' :: cs => '\n' :: unifyNewlines cs
  | '\r' :: cs => '\n' :: unifyNewlines cs
  | c :: cs => c :: unifyNewlines cs

def Files.text (files : Files) (path : String) : Except FileError String := do
  let bytes ← files path
  match Utf8.decode bytes with
  | .ok chars => return String.ofList (unifyNewlines chars)
  | .error fault => .error (.notUtf8 fault)

end Scriptlet
