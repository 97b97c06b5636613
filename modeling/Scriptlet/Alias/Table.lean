import Scriptlet.Token.Basic

/-!
The table of keyword aliases: words that are read as a keyword. Words are kept in the order in
which they were added, and no word stands in the table twice.
-/

namespace Scriptlet

structure AliasTable where
  entries : List (String × Keyword)
  deriving DecidableEq

namespace AliasTable

def empty : AliasTable := ⟨[]⟩

def get? (table : AliasTable) (word : String) : Option Keyword :=
  table.entries.lookup word

/-- Adds a word, or gives a word of the table another keyword at its old place. -/
def insert (table : AliasTable) (word : String) (keyword : Keyword) : AliasTable :=
  if (table.get? word).isSome then
    ⟨table.entries.map fun entry => if entry.1 == word then (word, keyword) else entry⟩
  else ⟨table.entries ++ [(word, keyword)]⟩

/-- The token that an alias stands for; it keeps the alias as its text. -/
def token? (table : AliasTable) (word : String) (line column : Nat) : Option Token :=
  (table.get? word).map fun keyword => ⟨.keyword keyword, word, line, column⟩

/-- Text right-aligned in a column of `width` characters. -/
def alignRight (width : Nat) (text : String) : String :=
  String.ofList (List.replicate (width - text.length) ' ') ++ text

/-- One line for each alias, in the order of the words. -/
def report (table : AliasTable) : String :=
  let sorted := table.entries.mergeSort fun a b => a.1 ≤ b.1
  "\n".intercalate (sorted.map fun (word, keyword) =>
    alignRight 12 word ++ " → " ++ keyword.name)

end AliasTable

end Scriptlet
