import Scriptlet.Script

/-!
The interactive session. A session reads lines; lines with open braces are put together with those
that follow, and the text is then taken as a command of the session or handled as the mode says:
its tokens are listed, its canonical text is shown, or it is evaluated. What is bound by one text is
there for the next.
-/

namespace Scriptlet

inductive Mode where
  | token
  | parse
  | eval
  deriving DecidableEq

namespace Mode

def all : List Mode := [.token, .parse, .eval]

def name : Mode → String
  | .token => "token"
  | .parse => "parse"
  | .eval => "eval"

def ofName? (name : String) : Option Mode :=
  all.find? (·.name == name)

end Mode

/-- What a text means to a session. -/
inductive Entry where
  /-- Blank, or a comment. -/
  | nothing
  | leave
  | command (name argument : String)
  | source (text : String)
  deriving DecidableEq

/-- A command is a word behind a colon, and its argument is what follows the first space. -/
def Entry.ofText (text : String) : Entry :=
  if text = "exit" || text = "quit" then .leave
  else
    match text.toList with
    | [] => .nothing
    | '#' :: _ => .nothing
    | ':' :: rest =>
      let name := rest.takeWhile (· != ' ')
      .command (String.ofList name) (Text.trim (String.ofList (rest.drop (name.length + 1))))
    | _ => .source text

structure Session where
  mode : Mode
  aliases : AliasTable
  scope : ScopeId
  machine : Machine
  /-- Lines of an unfinished text, the last one first. -/
  pending : List String
  /-- Braces opened by the pending lines and not closed. -/
  balance : Int

structure Reply where
  session : Session
  output : String
  finished : Bool

namespace Session

def start (mode : Mode) (aliases : AliasTable) : Session :=
  let (scope, machine) := Machine.withScope
  ⟨mode, aliases, scope, machine, [], 0⟩

def greeting (mode : Mode) : String :=
  "Toy REPL [mode=" ++ mode.name ++ "]. Type 'exit' or 'quit' to leave.\n"

def farewell : String := "Exiting Toy REPL.\n"

def prompt (s : Session) : String :=
  if s.pending.isEmpty then ">> " else ".. "

def line (text : String) : String :=
  text ++ "\n"

def complaint (diagnostics : List Diagnostic) : String :=
  line "[error] >>> parser errors:" ++
    String.join (diagnostics.map fun d => line ("\t" ++ d.message))

def tooNested : String := line "[error] >>>\nRecursionError\n"

def listTokens (s : Session) (text : String) : String :=
  String.join ((Lexer.ofString s.aliases text).1.map fun t => line t.display)

def showTree (limits : Limits) (s : Session) (text : String) : String × Session :=
  match Reading.ofText limits.nesting s.aliases text with
  | .tooDeep diagnostics =>
    (tooNested, { s with machine := s.machine.noteDiagnostics diagnostics })
  | .parsed tree [] => (line tree.render, s)
  | .parsed _ diagnostics =>
    (complaint diagnostics, { s with machine := s.machine.noteDiagnostics diagnostics })

/-- What is said about how a text ended, behind what it printed itself. -/
def verdict : Ending → String
  | .diagnosed diagnostics => complaint diagnostics
  | .nestedTooDeep => tooNested
  | .finished none => ""
  | .finished (some value) => line value.inspect
  | .broken breach => line ("[error] >>>\n" ++ breach.message ++ "\n")
  | .calledTooDeep => line "[error] >>> maximum recursion depth exceeded"

/-- Evaluates a text and shows what it printed and its value. -/
def evaluateText (limits : Limits) (s : Session) (text : String) : String × Session :=
  let (ending, machine) :=
    runText limits s.aliases s.scope text { s.machine with printed := #[] }
  (machine.output ++ verdict ending, { s with machine })

def handleSource (limits : Limits) (s : Session) (text : String) : String × Session :=
  match s.mode with
  | .token => (s.listTokens text, s)
  | .parse => s.showTree limits text
  | .eval => s.evaluateText limits text

def switchMode (s : Session) (name : String) : String × Session :=
  match Mode.ofName? name with
  | some mode =>
    let machine := { s.machine with notes := s.machine.notes.push (.modeSwitched mode.name) }
    (line ("[mode] >>> " ++ mode.name), { s with mode, machine })
  | none =>
    (line ("[error] >>> Unknown mode " ++ Text.quoted name ++ "; choose one of " ++
      ", ".intercalate (Mode.all.map Mode.name)), s)

/-- Names and what they stand for, a line each. -/
def listNames (s : Session) : String :=
  String.join ((s.machine.heap.names s.scope).map fun name =>
    let value := ((s.machine.heap.get? s.scope name).map Value.inspect).getD ""
    line (name ++ " = " ++ value))

def listAliases (s : Session) : String :=
  line (if s.aliases.entries.isEmpty then "[aliases] >>> none configured" else s.aliases.report)

def handleCommand (s : Session) (name argument : String) : String × Session :=
  match name with
  | "mode" => s.switchMode argument
  | "env" => (s.listNames, s)
  | "aliases" => (s.listAliases, s)
  | _ => (line ("[error] >>> Unknown command :" ++ name), s)

def enter (limits : Limits) (s : Session) (text : String) : Reply :=
  match Entry.ofText text with
  | .nothing => ⟨s, "", false⟩
  | .leave => ⟨s, farewell, true⟩
  | .command name argument =>
    let (output, s) := s.handleCommand name argument
    ⟨s, output, false⟩
  | .source text =>
    let (output, s) := s.handleSource limits text
    ⟨s, output, false⟩

/-- Braces that a line opens less those that it closes, wherever in the line they stand. -/
def braceBalance (text : String) : Int :=
  (text.toList.count '\x7b' : Int) - text.toList.count '\x7d'

/-- Takes a line. As long as braces are open the text goes on with the next line. -/
def feed (limits : Limits) (s : Session) (text : String) : Reply :=
  let pending := text :: s.pending
  let balance := s.balance + braceBalance text
  if 0 < balance then ⟨{ s with pending, balance }, "", false⟩
  else
    let whole := Text.trim ("\n".intercalate pending.reverse)
    { s with pending := [], balance := 0 }.enter limits whole

end Session

/-! Whole sessions: what is prompted and said in turn. A session ends when it is told to, when it is
interrupted, or when there are no more lines. -/

inductive Input where
  | line (text : String)
  | interrupt
  deriving DecidableEq

/-- A prompt, and what is said to the line that is given at it. -/
structure Exchange where
  prompt : String
  output : String
  deriving DecidableEq

namespace Session

/-- Goes on until the session ends. -/
def converse (limits : Limits) : Session → List Input → List Exchange × Session
  | s, [] | s, .interrupt :: _ => ([⟨s.prompt, "\n" ++ farewell⟩], s)
  | s, .line text :: inputs =>
    let reply := s.feed limits text
    let exchange : Exchange := ⟨s.prompt, reply.output⟩
    if reply.finished then ([exchange], reply.session)
    else
      let (exchanges, last) := converse limits reply.session inputs
      (exchange :: exchanges, last)

def transcript (exchanges : List Exchange) : String :=
  String.join (exchanges.map fun exchange => exchange.prompt ++ exchange.output)

end Session

end Scriptlet
