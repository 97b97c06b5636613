import Scriptlet.Eval.Machine

/-!
The functions that every program has. Each checks the number of its arguments first, then their
types. Functions on arrays make new arrays and leave their argument as it is.
-/

namespace Scriptlet.Builtin

/-- The elements of the array that must be the first of `wanted` arguments. -/
def arrayArgument (f : Builtin) (wanted : Nat) (arguments : List Value) :
    Except RuntimeError (List Value) :=
  if arguments.length ≠ wanted then .error (.builtinCount f wanted arguments.length)
  else
    match arguments with
    | .array _ elements :: _ => .ok elements
    | other :: _ => .error (.builtinType f [.array] other.tag)
    | [] => .ok []

/-- A function of one array. -/
def onArray (f : Builtin) (arguments : List Value) (body : List Value → Eval Value) :
    Eval Value :=
  match f.arrayArgument 1 arguments with
  | .ok elements => body elements
  | .error reason => return .error reason

def length (arguments : List Value) : Value :=
  match arguments with
  | [.text s] => .integer s.length
  | [.array _ elements] => .integer elements.length
  | [other] => .error (.builtinType .len [.text, .array] other.tag)
  | _ => .error (.builtinCount .len 1 arguments.length)

def printAll : List Value → Eval Value
  | [] => return .null
  | v :: vs => do
    Eval.printLine v.inspect
    printAll vs

def apply (f : Builtin) (arguments : List Value) : Eval Value :=
  match f with
  | .len => return length arguments
  | .first => f.onArray arguments fun elements => return elements.head?.getD .null
  | .last => f.onArray arguments fun elements => return elements.getLast?.getD .null
  | .rest => f.onArray arguments fun elements =>
    if elements.isEmpty then return .null else Eval.newArray elements.tail
  | .pop => f.onArray arguments fun elements =>
    if elements.isEmpty then return .null else Eval.newArray elements.dropLast
  | .push =>
    match f.arrayArgument 2 arguments with
    | .ok elements => Eval.newArray (elements ++ arguments.tail)
    | .error reason => return .error reason
  | .puts => printAll arguments

end Scriptlet.Builtin
