import Scriptlet.Json.Basic

/-!
Reading JSON. Not-a-number and the infinities may be written as words; a name that occurs twice in
an object keeps its first place and its last value. A text that is not JSON is refused with the
first thing that is wrong with it and where.
-/

namespace Scriptlet.Json

inductive Problem where
  | byteOrderMark
  | value
  | name
  | colon
  | comma
  | extraData
  | unterminated
  | controlCharacter
  | badEscape
  | badCodeEscape
  deriving DecidableEq

def Problem.message : Problem → String
  | .byteOrderMark => "Unexpected UTF-8 BOM (decode using utf-8-sig)"
  | .value => "Expecting value"
  | .name => "Expecting property name enclosed in double quotes"
  | .colon => "Expecting ':' delimiter"
  | .comma => "Expecting ',' delimiter"
  | .extraData => "Extra data"
  | .unterminated => "Unterminated string starting at"
  | .controlCharacter => "Invalid control character at"
  | .badEscape => "Invalid \\escape"
  | .badCodeEscape => "Invalid \\uXXXX escape"

inductive Fault where
  | wrong (problem : Problem) (offset : Nat)
  /-- An integer with more digits than are read. -/
  | tooManyDigits (count : Nat)
  deriving DecidableEq

/-- The message of a fault in a text. Lines and columns are counted from one. -/
def Fault.message (text : List Char) : Fault → String
  | .wrong problem offset =>
    let before := text.take offset
    let line := before.count '\n' + 1
    let column := (before.reverse.takeWhile (· != '\n')).length + 1
    problem.message ++ ": line " ++ toString line ++ " column " ++ toString column ++
      " (char " ++ toString offset ++ ")"
  | .tooManyDigits count =>
    "Exceeds the limit (4300 digits) for integer string conversion: value has " ++
      toString count ++ " digits; use sys.set_int_max_str_digits() to increase the limit"

/-- What is left of a text, and how much of it lies behind. -/
structure Spot where
  rest : List Char
  offset : Nat

def isSpace (c : Char) : Bool :=
  c == ' ' || c == '\t' || c == '\n' || c == '\r'

def Spot.skip (s : Spot) (n : Nat) : Spot :=
  ⟨s.rest.drop n, s.offset + n⟩

def Spot.skipSpace (s : Spot) : Spot :=
  s.skip (s.rest.takeWhile isSpace).length

def hexValue? (c : Char) : Option Nat :=
  if '0' ≤ c && c ≤ '9' then some (c.toNat - 48)
  else if 'a' ≤ c && c ≤ 'f' then some (c.toNat - 87)
  else if 'A' ≤ c && c ≤ 'F' then some (c.toNat - 55)
  else none

def code? (a b c d : Char) : Option Nat := do
  return ((← hexValue? a) * 16 + (← hexValue? b)) * 256 + (← hexValue? c) * 16 + (← hexValue? d)

/-- The character of a code; half of a pair alone has none and is replaced. -/
def charOfCode (code : Nat) : Char :=
  if 0xD800 ≤ code && code ≤ 0xDFFF then '\uFFFD' else Char.ofNat code

/-- The character meant by a backslash before `c`. -/
def escaped? (c : Char) : Option Char :=
  if c == '"' || c == '\\' || c == '/' then some c
  else if c == 'b' then some '\x08'
  else if c == 'f' then some '\x0c'
  else if c == 'n' then some '\n'
  else if c == 'r' then some '\r'
  else if c == 't' then some '\t'
  else none

def isHighHalf (code : Nat) : Bool := 0xD800 ≤ code && code ≤ 0xDBFF

def isLowHalf (code : Nat) : Bool := 0xDC00 ≤ code && code ≤ 0xDFFF

/-- The characters of codes. Two halves next to each other are one character. -/
def charsOfCodes : List Nat → List Char
  | high :: low :: codes =>
    if isHighHalf high && isLowHalf low then
      Char.ofNat (0x10000 + (high - 0xD800) * 0x400 + (low - 0xDC00)) :: charsOfCodes codes
    else charOfCode high :: charsOfCodes (low :: codes)
  | [code] => [charOfCode code]
  | [] => []

/-- Reads what follows an opening quote at offset `start`. `read` holds the codes so far, the last
one first. An escape by code needs another character behind it. -/
def readText (start : Nat) : List Char → Nat → List Nat → Except Fault (String × Spot)
  | [], _, _ => .error (.wrong .unterminated start)
  | c :: rest, offset, read =>
    if c == '"' then .ok (String.ofList (charsOfCodes read.reverse), ⟨rest, offset + 1⟩)
    else if c == '\\' then
      match rest with
      | [] => .error (.wrong .unterminated start)
      | 'u' :: a :: b :: c :: d :: next :: rest =>
        match code? a b c d with
        | some code => readText start (next :: rest) (offset + 6) (code :: read)
        | none => .error (.wrong .badCodeEscape (offset + 1))
      | 'u' :: _ => .error (.wrong .badCodeEscape (offset + 1))
      | e :: rest =>
        match escaped? e with
        | some meant => readText start rest (offset + 2) (meant.toNat :: read)
        | none => .error (.wrong .badEscape offset)
    else if c.toNat ≤ 0x1f then .error (.wrong .controlCharacter offset)
    else readText start rest (offset + 1) (c.toNat :: read)

def isAsciiDigit (c : Char) : Bool :=
  '0' ≤ c && c ≤ '9'

def natOfDigits (digits : List Char) : Nat :=
  digits.foldl (fun n c => 10 * n + (c.toNat - 48)) 0

def leadingDigits (cs : List Char) : List Char :=
  cs.takeWhile isAsciiDigit

/-- The digits of an integer: a zero alone, or all there are. -/
def wholeDigits (cs : List Char) : List Char :=
  match cs with
  | '0' :: _ => ['0']
  | _ => leadingDigits cs

def fractionDigits (cs : List Char) : List Char :=
  match cs with
  | '.' :: rest => leadingDigits rest
  | _ => []

/-- The power of ten written behind a number, and the length of its text. -/
def exponent? (cs : List Char) : Option (Int × Nat) :=
  match cs with
  | e :: rest =>
    if e == 'e' || e == 'E' then
      let (negative, signs, rest) := match rest with
        | '-' :: rest => (true, 1, rest)
        | '+' :: rest => (false, 1, rest)
        | _ => (false, 0, rest)
      let digits := leadingDigits rest
      if digits.isEmpty then none
      else
        let size : Int := natOfDigits digits
        some (if negative then -size else size, 1 + signs + digits.length)
    else none
  | [] => none

def readNumber (s : Spot) : Except Fault (Json × Spot) :=
  let (negative, unsigned) := match s.rest with
    | '-' :: _ => (true, s.skip 1)
    | _ => (false, s)
  let whole := wholeDigits unsigned.rest
  if whole.isEmpty then .error (.wrong .value s.offset)
  else
    let afterWhole := unsigned.skip whole.length
    let fraction := fractionDigits afterWhole.rest
    let afterFraction :=
      if fraction.isEmpty then afterWhole else afterWhole.skip (fraction.length + 1)
    match exponent? afterFraction.rest with
    | some (power, length) =>
      .ok (.float (.ofDecimal negative (natOfDigits (whole ++ fraction)) (power - fraction.length)),
        afterFraction.skip length)
    | none =>
      if !fraction.isEmpty then
        .ok (.float (.ofDecimal negative (natOfDigits (whole ++ fraction)) (-fraction.length)),
          afterFraction)
      else if 4300 < whole.length then .error (.tooManyDigits whole.length)
      else
        let size : Int := natOfDigits whole
        .ok (.integer (if negative then -size else size), afterWhole)

def words : List (String × Json) :=
  [("null", .null), ("true", .boolean true), ("false", .boolean false), ("NaN", .float .nan),
   ("Infinity", .float (.infinite false)), ("-Infinity", .float (.infinite true))]

/-- Reads a value that holds no others. -/
def readPlain (s : Spot) : Except Fault (Json × Spot) :=
  match words.find? fun (word, _) => word.toList.isPrefixOf s.rest with
  | some (word, value) => .ok (value, s.skip word.length)
  | none => readNumber s

/-- Reads the elements of an array from a spot on where one must begin. -/
def readElements (nested : Spot → Except Fault (Json × Spot)) :
    Nat → Spot → List Json → Except Fault (Json × Spot)
  | 0, s, _ => .error (.wrong .value s.offset)
  | fuel + 1, s, read => do
    let (value, after) ← nested s
    let after := after.skipSpace
    match after.rest with
    | ']' :: _ => .ok (.array (value :: read).reverse, after.skip 1)
    | ',' :: _ => readElements nested fuel (after.skip 1).skipSpace (value :: read)
    | _ => .error (.wrong .comma after.offset)

def readMembers (nested : Spot → Except Fault (Json × Spot)) :
    Nat → Spot → List (String × Json) → Except Fault (Json × Spot)
  | 0, s, _ => .error (.wrong .value s.offset)
  | fuel + 1, s, read =>
    match s.rest with
    | '"' :: _ => do
      let (name, after) ← readText s.offset (s.skip 1).rest (s.offset + 1) []
      let after := after.skipSpace
      match after.rest with
      | ':' :: _ =>
        let (value, after) ← nested (after.skip 1).skipSpace
        let read := insertMember read name value
        let after := after.skipSpace
        match after.rest with
        | '\x7d' :: _ => .ok (.object read, after.skip 1)
        | ',' :: _ => readMembers nested fuel (after.skip 1).skipSpace read
        | _ => .error (.wrong .comma after.offset)
      | _ => .error (.wrong .colon after.offset)
    | _ => .error (.wrong .name s.offset)

/-- Reads a value, with at most `levels` values inside each other. -/
def readValue : (levels : Nat) → Spot → Except Fault (Json × Spot)
  | 0, s => .error (.wrong .value s.offset)
  | levels + 1, s =>
    match s.rest with
    | '"' :: rest => do
      let (contents, after) ← readText s.offset rest (s.offset + 1) []
      return (.text contents, after)
    | '[' :: _ =>
      let inside := (s.skip 1).skipSpace
      match inside.rest with
      | ']' :: _ => .ok (.array [], inside.skip 1)
      | _ => readElements (readValue levels) (inside.rest.length + 1) inside []
    | '\x7b' :: _ =>
      let inside := (s.skip 1).skipSpace
      match inside.rest with
      | '\x7d' :: _ => .ok (.object [], inside.skip 1)
      | _ => readMembers (readValue levels) (inside.rest.length + 1) inside []
    | _ => readPlain s

def ofChars (text : List Char) : Except Fault Json :=
  match text with
  | '\uFEFF' :: _ => .error (.wrong .byteOrderMark 0)
  | _ => do
    let (value, after) ← readValue (text.length + 1) (Spot.mk text 0).skipSpace
    let after := after.skipSpace
    if after.rest.isEmpty then return value else .error (.wrong .extraData after.offset)

end Scriptlet.Json
