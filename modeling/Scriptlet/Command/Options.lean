import Scriptlet.Number.Integer
import Scriptlet.Session.Basic

/-!
Options of the command line. An argument is an option if it is written like one: by its name, by a
beginning of a long name that no other name shares, by several short names behind one dash, or with
its value behind an equals sign. All other arguments are plain, and so is everything behind a
double dash. The first plain argument that is no option's value is the source.
-/

namespace Scriptlet.Command

inductive Switch where
  | help
  | string
  | repl
  | mode
  | aliases
  | recursionLimit
  | verbose
  deriving DecidableEq

namespace Switch

def all : List Switch :=
  [.help, .string, .repl, .mode, .aliases, .recursionLimit, .verbose]

def names : Switch → List String
  | .help => ["-h", "--help"]
  | .string => ["-s", "--string"]
  | .repl => ["--repl"]
  | .mode => ["--mode"]
  | .aliases => ["--aliases"]
  | .recursionLimit => ["--recursion-limit"]
  | .verbose => ["--verbose"]

def takesValue : Switch → Bool
  | .mode | .aliases | .recursionLimit => true
  | _ => false

def table : List (String × Switch) :=
  all.flatMap fun s => s.names.map (·, s)

def ofName? (name : String) : Option Switch :=
  table.lookup name

def ofLetter? (letter : Char) : Option Switch :=
  ofName? (String.ofList ['-', letter])

def title (s : Switch) : String :=
  "/".intercalate s.names

end Switch

inductive UsageError where
  | ambiguous (argument : String) (names : List String)
  | missingValue (switch : Switch)
  | unexpectedValue (switch : Switch) (value : String)
  | badMode (value : String)
  | badInteger (value : String)
  | unrecognized (arguments : List String)
  deriving DecidableEq

def UsageError.message : UsageError → String
  | .ambiguous argument names =>
    "ambiguous option: " ++ argument ++ " could match " ++ ", ".intercalate names
  | .missingValue switch => "argument " ++ switch.title ++ ": expected one argument"
  | .unexpectedValue switch value =>
    "argument " ++ switch.title ++ ": ignored explicit argument " ++ Text.quoted value
  | .badMode value =>
    "argument " ++ Switch.mode.title ++ ": invalid choice: " ++ Text.quoted value ++
      " (choose from " ++ ", ".intercalate (Mode.all.map fun m => Text.quoted m.name) ++ ")"
  | .badInteger value =>
    "argument " ++ Switch.recursionLimit.title ++ ": invalid int value: " ++ Text.quoted value
  | .unrecognized arguments => "unrecognized arguments: " ++ " ".intercalate arguments

/-- Why a command line gives no options to go on with. -/
inductive Stop where
  | help
  | usage (error : UsageError)
  deriving DecidableEq

inductive Argument where
  | plain (text : String)
  /-- The double dash. -/
  | separator
  /-- An option, whether its name has a single dash, and the value written with it. -/
  | option (switch : Switch) (short : Bool) (value : Option String)
  /-- Written like an option, but none of ours. -/
  | unknown (text : String)
  deriving DecidableEq

/-- A minus and digits, perhaps with a point among or before them. A newline may end it. -/
def isNegativeNumber (argument : List Char) : Bool :=
  let isDecimal (c : Char) := (Text.decimalValue? c).isSome
  match argument with
  | '-' :: rest =>
    let digits := if rest.getLast? = some '\n' then rest.dropLast else rest
    match digits.dropWhile isDecimal with
    | [] => !digits.isEmpty
    | '.' :: fraction => !fraction.isEmpty && fraction.all isDecimal
    | _ => false
  | _ => false

namespace Argument

/-- The name and the value of an argument with an equals sign. -/
def splitValue (argument : List Char) : String × Option String :=
  let name := argument.takeWhile (· != '=')
  (String.ofList name,
    if name.length < argument.length then some (String.ofList (argument.drop (name.length + 1)))
    else none)

/-- An argument with a dash that is not the name of an option, even without its value. -/
def ofStranger (argument : String) : Argument :=
  if isNegativeNumber argument.toList || argument.toList.contains ' ' then .plain argument
  else .unknown argument

/-- An argument that may begin a long name. -/
def ofBeginning (argument : String) : Except UsageError Argument :=
  let (beginning, value) := splitValue argument.toList
  match Switch.table.filter fun entry => beginning.toList.isPrefixOf entry.1.toList with
  | [] => .ok (ofStranger argument)
  | [(_, switch)] => .ok (.option switch false value)
  | several => .error (.ambiguous argument (several.map Prod.fst))

def ofLetters (argument : String) (letter : Char) (rest : List Char) : Argument :=
  match Switch.ofLetter? letter with
  | some switch => .option switch true (some (String.ofList rest))
  | none => ofStranger argument

def isShort (name : String) : Bool :=
  name.toList.take 2 ≠ ['-', '-']

/-- The form of an argument before the double dash. -/
def ofString (argument : String) : Except UsageError Argument :=
  match argument.toList with
  | '-' :: second :: rest =>
    match Switch.ofName? argument, splitValue argument.toList with
    | some switch, _ => .ok (.option switch (isShort argument) none)
    | none, (name, some value) =>
      match Switch.ofName? name with
      | some switch => .ok (.option switch (isShort name) (some value))
      | none =>
        if second = '-' then ofBeginning argument else .ok (ofLetters argument second rest)
    | none, (_, none) =>
      if second = '-' then ofBeginning argument else .ok (ofLetters argument second rest)
  | _ => .ok (.plain argument)

def ofStrings : List String → Except UsageError (List Argument)
  | [] => .ok []
  | argument :: arguments =>
    if argument = "--" then .ok (.separator :: arguments.map .plain)
    else do return (← ofString argument) :: (← ofStrings arguments)

end Argument

structure Options where
  source : Option String := none
  /-- The source is the text itself, not the path of a script. -/
  isText : Bool := false
  repl : Bool := false
  /-- None only if the option is written with a value that counts as none. -/
  mode : Option Mode := some .eval
  aliases : Option String := none
  recursionLimit : Option Int := none
  verbose : Bool := false
  deriving DecidableEq

namespace Options

def setFlag (o : Options) : Switch → Except Stop Options
  | .help => .error .help
  | .string => .ok { o with isText := true }
  | .repl => .ok { o with repl := true }
  | .verbose => .ok { o with verbose := true }
  | _ => .ok o

def setValue (o : Options) (switch : Switch) (value : String) : Except Stop Options :=
  match switch with
  | .mode =>
    match Mode.ofName? value with
    | some mode => .ok { o with mode := some mode }
    | none => .error (.usage (.badMode value))
  | .recursionLimit =>
    match Numeral.integer? value with
    | some n => .ok { o with recursionLimit := some n }
    | none => .error (.usage (.badInteger value))
  | .aliases => .ok { o with aliases := some value }
  | _ => .ok o

/-- The options of letters behind one dash, the first of which is `switch`. -/
def cluster (switch : Switch) : List Char → Except UsageError (List Switch)
  | [] => .ok [switch]
  | letter :: letters =>
    match Switch.ofLetter? letter with
    | some next => (cluster next letters).map (switch :: ·)
    | none => .error (.unexpectedValue switch (String.ofList (letter :: letters)))

/-- The options that an option without a value stands for, with what is written behind it. -/
def flagsOf (switch : Switch) (short : Bool) : Option String → Except UsageError (List Switch)
  | none => .ok [switch]
  | some value =>
    if short && value ≠ "" then cluster switch value.toList
    else .error (.unexpectedValue switch value)

/-- Takes an option that has no value, and those clustered with it. -/
def takeFlags (o : Options) (switch : Switch) (short : Bool) (value : Option String) :
    Except Stop Options :=
  match flagsOf switch short value with
  | .error e => .error (.usage e)
  | .ok switches => switches.foldlM setFlag o

def clear (o : Options) : Switch → Options
  | .mode => { o with mode := none }
  | .aliases => { o with aliases := none }
  | .recursionLimit => { o with recursionLimit := none }
  | _ => o

/-- Takes an option with the value written behind its equals sign, where a double dash counts as no
value. -/
def takeWritten (o : Options) (switch : Switch) (value : String) : Except Stop Options :=
  if value = "--" then .ok (o.clear switch) else o.setValue switch value

end Options

/-- Options read so far, and the arguments that there is no use for. -/
structure Draft where
  options : Options
  extras : List String

namespace Draft

/-- Takes a plain argument as the source, if there is none yet. -/
def place (d : Draft) (text : String) : Draft :=
  match d.options.source with
  | none => { d with options := { d.options with source := some text } }
  | some _ => { d with extras := d.extras ++ [text] }

def extra (d : Draft) (text : String) : Draft :=
  { d with extras := d.extras ++ [text] }

/-- Takes all arguments from left to right. A double dash next to the source belongs to it. -/
def takeAll : Draft → List Argument → Except Stop Draft
  | d, [] => .ok d
  | d, .plain text :: .separator :: rest =>
    if d.options.source.isNone then takeAll (d.place text) rest
    else takeAll ((d.place text).extra "--") rest
  | d, .plain text :: rest => takeAll (d.place text) rest
  | d, .separator :: rest =>
    if d.options.source.isNone then takeAll d rest else takeAll (d.extra "--") rest
  | d, .unknown text :: rest => takeAll (d.extra text) rest
  | d, .option switch short value :: .plain text :: rest =>
    match switch.takesValue, value with
    | true, none => do takeAll { d with options := ← d.options.setValue switch text } rest
    | true, some written => do
      let d := { d with options := ← d.options.takeWritten switch written }
      takeAll d (.plain text :: rest)
    | false, _ => do
      let d := { d with options := ← d.options.takeFlags switch short value }
      takeAll d (.plain text :: rest)
  | d, .option switch short value :: rest =>
    match switch.takesValue, value with
    | true, none => .error (.usage (.missingValue switch))
    | true, some written => do
      takeAll { d with options := ← d.options.takeWritten switch written } rest
    | false, _ => do
      takeAll { d with options := ← d.options.takeFlags switch short value } rest
  termination_by _ arguments => arguments.length

end Draft

def Options.ofArguments (arguments : List String) : Except Stop Options := do
  match Argument.ofStrings arguments with
  | .error e => .error (.usage e)
  | .ok forms =>
    let draft ← Draft.takeAll ⟨{}, []⟩ forms
    if draft.extras.isEmpty then return draft.options
    else .error (.usage (.unrecognized draft.extras))

end Scriptlet.Command
