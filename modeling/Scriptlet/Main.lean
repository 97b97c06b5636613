import Scriptlet.Command.Run

/-!
The program itself: it reads the files that the command line names, runs, and writes the report. A
session is held line by line.
-/

namespace Scriptlet.Command

def readFiles (paths : List String) : IO Files := do
  let mut found : List (String × Except FileError (List UInt8)) := []
  for path in paths do
    let contents ← (some <$> IO.FS.readBinFile path) <|> pure none
    match contents with
    | some bytes => found := (path, .ok bytes.toList) :: found
    | none => found := (path, .error (.missing path)) :: found
  let all := found
  return fun path => (all.lookup path).getD (.error (.missing path))

/-- Writes a report and gives the status to leave with. -/
def writeReport (report : Report) : IO UInt32 := do
  IO.print report.output
  IO.eprint report.errors
  match report.exit with
  | .status code => return code.toUInt32
  | .crash reason =>
    IO.eprintln reason.message
    return 1

/-- Holds a session with the keyboard. -/
partial def hold (limits : Limits) (verbose : Bool) (session : Session) : IO Unit := do
  IO.print session.prompt
  (← IO.getStdout).flush
  let typed ← (← IO.getStdin).getLine
  if typed.isEmpty then
    IO.print ("\n" ++ Session.farewell)
  else
    let text := if typed.endsWith "\n" then (typed.dropEnd 1).toString else typed
    let told := session.machine.notes.size
    let reply := session.feed limits text
    IO.eprint (noteLines verbose (reply.session.machine.notes.toList.drop told))
    IO.print reply.output
    if !reply.finished then hold limits verbose reply.session

def perform (limits : Limits) (o : Options) : IO UInt32 := do
  let aliasVariable ← IO.getEnv "TOY_ALIASES"
  let files ← readFiles ([o.aliases, aliasVariable, o.source].filterMap id)
  let world : World := ⟨files, aliasVariable, ""⟩
  if o.holdsSession then
    let (notes, prepared) := prepare world o
    IO.eprint (noteLines o.verbose notes)
    match prepared, o.mode with
    | .error report, _ => writeReport report
    | .ok _, none => writeReport ⟨"", "", .crash .noMode⟩
    | .ok aliases, some mode =>
      IO.print (Session.greeting mode)
      hold limits o.verbose (.start mode aliases)
      return 0
  else
    writeReport (runOptions limits world o)

end Scriptlet.Command

def main (arguments : List String) : IO UInt32 :=
  match Scriptlet.Command.Options.ofArguments arguments with
  | .ok o => Scriptlet.Command.perform {} o
  | .error stop => Scriptlet.Command.writeReport stop.report
