import Scriptlet.Alias.Table
import Scriptlet.File
import Scriptlet.Json.Reader
import Scriptlet.Text.Basic

/-!
Configuring aliases. A configuration gives groups of words, each with the name of a keyword. It is
taken as a whole or not at all: one word that is no identifier, is reserved, or has already been
given another keyword, makes the whole configuration fail, with a line for each such word.
-/

namespace Scriptlet

/-- A group of words: separated by commas, or a list of groups. Anything else names no word. -/
inductive AliasGroup where
  | words (text : String)
  | list (groups : List AliasGroup)
  | other (value : Json)

namespace AliasGroup

/-- The words of a text, without the blanks around them. -/
def wordsOf (text : String) : List String :=
  ((Text.pieces ',' text.toList).map Text.trimChars).filterMap fun word =>
    if word.isEmpty then none else some (String.ofList word)

mutual

def toWords : AliasGroup → List String
  | .words text => wordsOf text
  | .list groups => toWordsAll groups
  | .other _ => []

def toWordsAll : List AliasGroup → List String
  | [] => []
  | g :: gs => g.toWords ++ toWordsAll gs

end

/-- Whether two values that name no word are the same key: numbers count by their size, and a truth
value as 0 or 1. -/
def sameValue : Json → Json → Bool
  | .null, .null => true
  | .boolean a, .boolean b => a == b
  | .boolean a, .integer n | .integer n, .boolean a => (if a then 1 else 0) == n
  | .boolean a, .float x | .float x, .boolean a => x.isInteger (if a then 1 else 0)
  | .integer m, .integer n => m == n
  | .integer n, .float x | .float x, .integer n => x.isInteger n
  | .float x, .float y => x.equals y
  | _, _ => false

mutual

/-- Whether two groups are the same key of a configuration. -/
def same : AliasGroup → AliasGroup → Bool
  | .words a, .words b => a == b
  | .list a, .list b => sameAll a b
  | .other a, .other b => sameValue a b
  | _, _ => false

def sameAll : List AliasGroup → List AliasGroup → Bool
  | [], [] => true
  | g :: gs, h :: hs => g.same h && sameAll gs hs
  | _, _ => false

end

end AliasGroup

/-- Groups with the names of their keywords, in order. The name may be any value, as it comes from
outside. -/
structure AliasConfig where
  entries : List (AliasGroup × Json)

namespace AliasConfig

/-- Adds an entry; a group that is there keeps its place and gets the new name. -/
def insert : List (AliasGroup × Json) → AliasGroup → Json → List (AliasGroup × Json)
  | [], group, name => [(group, name)]
  | (g, n) :: rest, group, name =>
    if g.same group then (g, name) :: rest else (g, n) :: insert rest group name

/-- A configuration of entries of which later ones overrule earlier ones with the same group. -/
def ofEntries (entries : List (AliasGroup × Json)) : AliasConfig :=
  ⟨entries.foldl (fun read (group, name) => insert read group name) []⟩

def ofJson? : Json → Option AliasConfig
  | .object members => some ⟨members.map fun (name, value) => (.words name, value)⟩
  | _ => none

end AliasConfig

inductive AliasProblem where
  | notIdentifier (word : String)
  | reserved (word : String)
  | conflict (word : String) (old new : Keyword)
  deriving DecidableEq

def AliasProblem.message : AliasProblem → String
  | .notIdentifier word => "'" ++ word ++ "' is not a valid identifier"
  | .reserved word => "'" ++ word ++ "' is a reserved word"
  | .conflict word old new =>
    "'" ++ word ++ "' → conflict between " ++ old.name ++ " and " ++ new.name

inductive AliasError where
  | notObject
  | unknownKeyword (name : Json)
  | collisions (problems : List AliasProblem)
  | unreadable (reason : FileError)
  | notJson (text : List Char) (fault : Json.Fault)

namespace AliasError

def message : AliasError → String
  | .notObject => "Configuration must be a dict"
  | .unknownKeyword name => "Unknown keyword token name: " ++ name.plain
  | .collisions _ => "Alias collision(s) detected"
  | .unreadable reason => "Failed to load alias file: " ++ reason.message
  | .notJson text fault => "Failed to load alias file: " ++ fault.message text

/-- One line for each word that is in the way. -/
def conflicts : AliasError → List String
  | .collisions problems => problems.map AliasProblem.message
  | _ => []

end AliasError

namespace AliasTable

/-- What is wrong with giving a word a keyword, when `pending` has been read before it. -/
def problem? (table pending : AliasTable) (word : String) (keyword : Keyword) :
    Option AliasProblem :=
  if !Text.isWord word.toList then some (.notIdentifier word)
  else if (reservedKind? word).isSome then some (.reserved word)
  else
    match pending.get? word <|> table.get? word with
    | some old => if old = keyword then none else some (.conflict word old keyword)
    | none => none

/-- Words read so far and what is wrong with others, in order. -/
structure Draft where
  pending : AliasTable
  problems : List AliasProblem

def addWord (table : AliasTable) (keyword : Keyword) (draft : Draft) (word : String) : Draft :=
  match table.problem? draft.pending word keyword with
  | some problem => { draft with problems := draft.problems ++ [problem] }
  | none => { draft with pending := draft.pending.insert word keyword }

def keywordOf? : Json → Option Keyword
  | .text name => Keyword.ofName? name
  | _ => none

/-- A computation on a table that may give up. Either way it leaves a table behind. -/
abbrev Configuring := ExceptT AliasError (StateM AliasTable)

/-- What a computation gives on a table, and the table that it leaves. -/
def carryOut {α : Type} (table : AliasTable) (c : Configuring α) :
    Except AliasError α × AliasTable :=
  c.run.run table

/-- Reads all entries; a name that is no keyword's ends the reading. -/
def drafted : List (AliasGroup × Json) → Draft → Configuring Draft
  | [], draft => return draft
  | (group, name) :: entries, draft =>
    match keywordOf? name with
    | none => throw (.unknownKeyword name)
    | some keyword => do
      let table ← get
      drafted entries (group.toWords.foldl (addWord table keyword) draft)

/-- Adds the words of a configuration, and gives them apart. -/
def configuring (config : AliasConfig) : Configuring AliasTable := do
  let draft ← drafted config.entries ⟨.empty, []⟩
  if draft.problems.isEmpty then
    modify fun table =>
      draft.pending.entries.foldl (fun t (word, keyword) => t.insert word keyword) table
    return draft.pending
  else throw (.collisions draft.problems)

def configuringJson (value : Json) : Configuring AliasTable :=
  match AliasConfig.ofJson? value with
  | some config => configuring config
  | none => throw .notObject

def loading (files : Files) (path : String) : Configuring AliasTable :=
  match files.text path with
  | .error reason => throw (.unreadable reason)
  | .ok text =>
    match Json.ofChars text.toList with
    | .error fault => throw (.notJson text.toList fault)
    | .ok value => configuringJson value

/-- The table with the words that were added, or why there are none. -/
def outcome (table : AliasTable) (c : Configuring AliasTable) :
    Except AliasError (AliasTable × AliasTable) :=
  match table.carryOut c with
  | (.ok added, left) => .ok (left, added)
  | (.error reason, _) => .error reason

def configure (table : AliasTable) (config : AliasConfig) :
    Except AliasError (AliasTable × AliasTable) :=
  table.outcome (configuring config)

def configureJson (table : AliasTable) (value : Json) :
    Except AliasError (AliasTable × AliasTable) :=
  table.outcome (configuringJson value)

def load (table : AliasTable) (files : Files) (path : String) :
    Except AliasError (AliasTable × AliasTable) :=
  table.outcome (loading files path)

end AliasTable

end Scriptlet
