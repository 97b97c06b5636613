import Scriptlet.Alias.Config
import Scriptlet.Command.Options
import Scriptlet.Session.Basic
import Scriptlet.Text.Basic

/-!
The command line program. It runs a script or a text once, or holds a session, and reports what
goes to the two outputs and how the program ends.
-/

namespace Scriptlet

/-- The aliases of the file at a path, or at the path that a variable holds, or none at all. An
empty path counts as no path. -/
def AliasTable.ofSources (files : Files) (aliasVariable aliasPath : Option String) :
    List Note × Except AliasError AliasTable :=
  let given (path : Option String) := path.filter (· ≠ "")
  match given aliasPath <|> given aliasVariable with
  | none => ([], .ok .empty)
  | some path =>
    match AliasTable.empty.load files path with
    | .error reason => ([.loadingAliases path], .error reason)
    | .ok (table, added) =>
      ([.loadingAliases path, .aliasesConfigured added.entries.length], .ok table)

namespace Command

structure World where
  files : Files
  /-- The variable that names an alias file. -/
  aliasVariable : Option String
  /-- All that is typed in. -/
  input : String

/-- Why the program breaks off instead of leaving with a status. -/
inductive Crash where
  | notScript
  | badLimit
  | noMode
  | unreadable (reason : FileError)
  | broken (breach : Breach)
  | nestedTooDeep

def Crash.message : Crash → String
  | .notScript => "Only .toy files are supported."
  | .badLimit => "recursion limit must be greater or equal than 1"
  | .noMode => "Unknown REPL mode: []"
  | .unreadable reason => reason.message
  | .broken breach => breach.message
  | .nestedTooDeep => "maximum recursion depth exceeded"

inductive Exit where
  | status (code : Nat)
  | crash (reason : Crash)

structure Report where
  output : String
  errors : String
  exit : Exit

def usageText : String :=
  "usage: toy [-h] [-s] [--repl] [--mode \x7btoken,parse,eval\x7d]\n" ++
  "           [--aliases JSON_FILE] [--recursion-limit N] [--verbose]\n" ++
  "           [source]\n"

def helpText : String :=
  usageText ++
  "\n" ++
  "positional arguments:\n" ++
  "  source                Filename or raw source (with -s)\n" ++
  "\n" ++
  "options:\n" ++
  "  -h, --help            show this help message and exit\n" ++
  "  -s, --string          Interpret source as literal string\n" ++
  "  --repl                Launch the interactive REPL\n" ++
  "  --mode \x7btoken,parse,eval\x7d\n" ++
  "                        REPL mode (default: eval)\n" ++
  "  --aliases JSON_FILE   Keyword alias file (default: $TOY_ALIASES)\n" ++
  "  --recursion-limit N   Host recursion limit for deeply recursive programs\n" ++
  "  --verbose             Debug logging\n"

def Stop.report : Stop → Report
  | .help => ⟨helpText, "", .status 0⟩
  | .usage error => ⟨"", usageText ++ "toy: error: " ++ error.message ++ "\n", .status 2⟩

def noteLines (verbose : Bool) (notes : List Note) : String :=
  if verbose then String.join (notes.map fun note => Session.line note.line) else ""

/-- The text of a source: itself, or what a script file holds. -/
def sourceText (files : Files) (isText : Bool) (source : String) :
    List Note × Except Crash String :=
  if isText then ([], .ok source)
  else if !".toy".toList.isSuffixOf source.toList then ([], .error .notScript)
  else ([.readingScript source], (files.text source).mapError .unreadable)

def complaint (diagnostics : List Diagnostic) : String :=
  Session.line "parser errors:" ++
    String.join (diagnostics.map fun d => Session.line ("\t" ++ d.message))

/-- What is said about how a text ended: the two outputs and the exit. -/
def verdict : Ending → Report
  | .diagnosed diagnostics => ⟨complaint diagnostics, "", .status 1⟩
  | .nestedTooDeep => ⟨"", "", .crash .nestedTooDeep⟩
  | .finished none => ⟨"", "", .status 0⟩
  | .finished (some value) =>
    ⟨Session.line value.inspect, "", .status (if value.isError then 1 else 0)⟩
  | .broken breach => ⟨"", "", .crash (.broken breach)⟩
  | .calledTooDeep =>
    ⟨"", Session.line "[error] >>> maximum recursion depth exceeded", .status 1⟩

def runOnce (limits : Limits) (verbose : Bool) (aliases : AliasTable) (text : String) : Report :=
  let (scope, machine) := Machine.withScope
  let (ending, machine) := runText limits aliases scope text machine
  let said := verdict ending
  let notes := noteLines verbose machine.notes.toList
  ⟨machine.output ++ said.output, notes ++ said.errors, said.exit⟩

/-- The lines of what is typed in; the last one need not have an end. -/
def inputLines (input : String) : List String :=
  let pieces := Text.pieces '\n' input.toList
  (if pieces.getLast? = some [] then pieces.dropLast else pieces).map String.ofList

def runSession (limits : Limits) (verbose : Bool) (mode : Mode) (aliases : AliasTable)
    (input : String) : Report :=
  let (exchanges, last) :=
    (Session.start mode aliases).converse limits ((inputLines input).map .line)
  ⟨Session.greeting mode ++ Session.transcript exchanges,
    noteLines verbose last.machine.notes.toList, .status 0⟩

def aliasComplaint (error : AliasError) : String :=
  Session.line ("[error] >>> " ++ error.message) ++
    String.join (error.conflicts.map fun conflict => Session.line (" - " ++ conflict))

/-- Puts lines before what a report shows as errors. -/
def Report.after (r : Report) (errors : String) : Report :=
  { r with errors := errors ++ r.errors }

/-- A session is held if it is asked for or if there is no source. -/
def Options.holdsSession (o : Options) : Bool :=
  o.repl || o.source.isNone

/-- What comes before the options are carried out: the limit is checked and the aliases are read.
Gives the notes that this leaves, and the aliases or the report of what is wrong. -/
def prepare (world : World) (o : Options) : List Note × Except Report AliasTable :=
  if o.recursionLimit.getD 0 < 0 then ([], .error ⟨"", "", .crash .badLimit⟩)
  else
    let (notes, aliases) := AliasTable.ofSources world.files world.aliasVariable o.aliases
    (notes, aliases.mapError fun error => ⟨"", aliasComplaint error, .status 2⟩)

def runSource (limits : Limits) (world : World) (o : Options) (aliases : AliasTable) : Report :=
  let (notes, text) := sourceText world.files o.isText (o.source.getD "")
  let report := match text with
    | .ok text => runOnce limits o.verbose aliases text
    | .error reason => ⟨"", "", .crash reason⟩
  report.after (noteLines o.verbose notes)

def runOptions (limits : Limits) (world : World) (o : Options) : Report :=
  let (notes, prepared) := prepare world o
  let report := match prepared with
    | .error report => report
    | .ok aliases =>
      if o.holdsSession then
        match o.mode with
        | some mode => runSession limits o.verbose mode aliases world.input
        | none => ⟨"", "", .crash .noMode⟩
      else runSource limits world o aliases
  report.after (noteLines o.verbose notes)

def run (limits : Limits) (world : World) (arguments : List String) : Report :=
  match Options.ofArguments arguments with
  | .ok o => runOptions limits world o
  | .error stop => stop.report

end Command

end Scriptlet
