import Scriptlet.Proofs.Alias.Configure
import Scriptlet.Proofs.Lex.Lines

/-!
The words that can be aliases. A table asks whether a word has the shape of an identifier and is
not reserved; the lexer tries comments, words, numbers, quotes and symbols in turn and cuts off as
much as it can. The two agree: a word is taken as an alias if and only if the lexer gives it as
one identifier, and from then on the lexer gives it as the keyword.
-/

namespace Scriptlet

namespace Text

theorem dropWhile_of_head? {p : Char → Bool} {cs : List Char}
    (h : ∀ c ∈ cs.head?, p c = false) : cs.dropWhile p = cs := by
  cases cs with
  | nil => rfl
  | cons c cs => exact List.dropWhile_cons_of_neg (by simp [h c rfl])

/-- Without blanks at its ends a text is trimmed. -/
theorem trimChars_of_ends {cs : List Char} (hfirst : ∀ c ∈ cs.head?, isBlank c = false)
    (hlast : ∀ c ∈ cs.getLast?, isBlank c = false) : trimChars cs = cs := by
  have hreverse : ∀ c ∈ cs.reverse.head?, isBlank c = false := by
    rwa [List.head?_reverse]
  unfold trimChars
  rw [dropWhile_of_head? hfirst, dropWhile_of_head? hreverse, List.reverse_reverse]

theorem isWordStart_of_isWord {cs : List Char} (h : isWord cs = true) :
    ∀ c ∈ cs.head?, isWordStart c = true := by
  cases cs with
  | nil => exact nofun
  | cons d cs =>
      rintro _ ⟨⟩
      rw [isWord, Bool.and_eq_true] at h
      exact h.1

end Text

namespace Lexer

variable {table : AliasTable} {word : String}

/-- The whole text is one token of the kind, at the start of the first line. -/
def ReadsAs (table : AliasTable) (text : String) (kind : Kind) : Prop :=
  ∃ line column, tokenize table text = [⟨kind, text, 1, 1⟩, .finish line column]

/-- A word that does not start with a blank starts with ink. -/
theorem ink_of_isWord {cs : List Char} (hword : Text.isWord cs = true)
    (hfirst : ∀ c ∈ cs.head?, Text.isBlank c = false) : ∀ c ∈ cs.head?, IsInk c := by
  intro c hc
  refine ⟨hfirst c hc, ?_⟩
  rintro rfl
  have hstart := Text.isWordStart_of_isWord hword '#' hc
  revert hstart
  decide

theorem kind_wordToken_ne (table : AliasTable) (hword : Text.isWord word.toList = true)
    (line column : Nat) : (wordToken table word line column).kind ≠ .finish := by
  intro hkind
  have hnothing : ∀ c ∈ ([] : List Char).head?, Text.isWordChar c = false := by simp
  have hlexeme := @wordToken_lexeme table _ _ hword hnothing line column
  rw [String.ofList_toList] at hlexeme
  unfold Token.Lexeme at hlexeme
  rwa [hkind] at hlexeme

/-- A word stands for itself: it is one token, and then the text is over. -/
theorem tokenize_word (table : AliasTable) (hword : Text.isWord word.toList = true)
    (hfirst : ∀ c ∈ word.toList.head?, Text.isBlank c = false) :
    ∃ line column, tokenize table word =
      [wordToken table word 1 1, .finish line column] := by
  have hrest : (Reader.ofString word).rest = word.toList ++ [] := (List.append_nil _).symm
  have hnext : next table (.ofString word) =
      (wordToken table word 1 1, (Reader.ofString word).skip word.toList.length) := by
    have hapart : Apart [] := nofun
    rw [next_word hrest hword (ink_of_isWord hword hfirst) hapart, String.ofList_toList]
    rfl
  have hlast : (skipLayout (next table (.ofString word)).2).rest = [] := by
    unfold skipLayout
    rw [hnext, Reader.skip_rest, Reader.skip_append hrest, List.drop_nil]
  have hend : next table (next table (.ofString word)).2 =
      (.finish _ _, skipLayout (next table (.ofString word)).2) := next_of_end hlast
  have hrun : Runs table (.ofString word)
      [(next table (.ofString word)).1, (next table (next table (.ofString word)).2).1] := by
    apply Runs.token
    · rw [hnext]
      exact kind_wordToken_ne table hword 1 1
    · exact .finish (by rw [hend]; rfl)
  rw [hend, hnext] at hrun
  exact ⟨_, _, (runs_tokenize table word).unique hrun⟩

theorem readsAs_of_wordToken {kind : Kind} (hword : Text.isWord word.toList = true)
    (hfirst : ∀ c ∈ word.toList.head?, Text.isBlank c = false)
    (h : wordToken table word 1 1 = ⟨kind, word, 1, 1⟩) : ReadsAs table word kind := by
  have hread := tokenize_word table hword hfirst
  rwa [h] at hread

/-- The lexer gives a text as one identifier if and only if it is a word that is not reserved. -/
theorem readsAs_ident_iff (hfirst : ∀ c ∈ word.toList.head?, Text.isBlank c = false) :
    ReadsAs .empty word .ident ↔
      Text.isWord word.toList = true ∧ reservedKind? word = none := by
  constructor
  · rintro ⟨line, column, hread⟩
    -- the first token of a run is what is read at the start of the text
    have hlegible : Token.Legible .empty ⟨.ident, word, 1, 1⟩ := by
      have hrun := runs_tokenize .empty word
      rw [hread] at hrun
      generalize Token.mk .ident word 1 1 = t at hrun ⊢
      cases hrun with
      | token => exact next_legible _
    obtain ⟨hword, _, hreserved, _⟩ := hlegible.ident rfl
    exact ⟨hword, hreserved⟩
  · rintro ⟨hword, hreserved⟩
    apply readsAs_of_wordToken hword hfirst
    simp [wordToken, hreserved, AliasTable.token?, AliasTable.get?, AliasTable.empty]

theorem readsAs_keyword {keyword : Keyword} (hword : Text.isWord word.toList = true)
    (hreserved : reservedKind? word = none) (halias : table.get? word = some keyword)
    (hfirst : ∀ c ∈ word.toList.head?, Text.isBlank c = false) :
    ReadsAs table word (.keyword keyword) := by
  apply readsAs_of_wordToken hword hfirst
  simp [wordToken, hreserved, AliasTable.token?, halias]

end Lexer

namespace AliasConfig

def single (text : String) (keyword : Keyword) : AliasConfig :=
  ⟨[(.words text, .text keyword.name)]⟩

variable {word other : String} {keyword : Keyword}

/-- A text without commas and without blanks at its ends names itself and nothing else. -/
theorem mentions_words_iff (hne : word ≠ "") (hcomma : ',' ∉ word.toList)
    (htrimmed : Text.trimChars word.toList = word.toList) :
    (AliasGroup.words word).Mentions other ↔ other = word := by
  rw [← AliasGroup.mem_toWords_iff, AliasGroup.toWords, AliasGroup.mem_wordsOf_iff,
    Text.pieces_of_not_mem hcomma]
  simp only [List.mem_singleton, exists_eq_left, htrimmed, String.toList_inj]
  constructor
  · exact fun h => h.2
  · rintro rfl
    exact ⟨hne, rfl⟩

theorem gives_single_iff {given : Keyword} (hne : word ≠ "") (hcomma : ',' ∉ word.toList)
    (htrimmed : Text.trimChars word.toList = word.toList) :
    (single word keyword).Gives other given ↔ other = word ∧ given = keyword := by
  constructor
  · rintro ⟨group, hentry, hmentions⟩
    obtain ⟨rfl, hname⟩ := Prod.mk.inj (List.mem_singleton.mp hentry)
    refine ⟨(mentions_words_iff hne hcomma htrimmed).mp hmentions, ?_⟩
    have hfound : Keyword.ofName? keyword.name = some given :=
      Keyword.ofName?_eq_some_iff.mpr (Json.text.inj hname).symm
    rw [Keyword.ofName?_eq_some_iff.mpr rfl] at hfound
    exact (Option.some.inj hfound).symm
  · rintro ⟨rfl, rfl⟩
    exact ⟨_, List.mem_singleton_self _, (mentions_words_iff hne hcomma htrimmed).mpr rfl⟩

/-- For an empty table the shape of the word and the reserved words are all that matters. -/
theorem not_faulty_single_iff (keyword : Keyword) (hne : word ≠ "")
    (hcomma : ',' ∉ word.toList)
    (htrimmed : Text.trimChars word.toList = word.toList) :
    ¬ (single word keyword).Faulty .empty ↔
      Text.isWord word.toList = true ∧ reservedKind? word = none := by
  have hgiven {other : String} {given : Keyword} :
      (other, given) ∈ AliasConfig.given (single word keyword).entries ↔
        other = word ∧ given = keyword :=
    mem_given_iff.trans (gives_single_iff hne hcomma htrimmed)
  rw [AliasTable.not_faulty_iff]
  constructor
  · rintro ⟨_, hadmits⟩
    exact hadmits.word (hgiven.mpr ⟨rfl, rfl⟩)
  · intro hword
    refine ⟨?_, ?_, nofun, ?_⟩
    · intro entry hentry
      rw [List.mem_singleton.mp hentry, AliasTable.keywordOf?_eq_some_iff.mpr rfl]
      exact Option.some_ne_none _
    · intro other given hmem
      rwa [(hgiven.mp hmem).1]
    · intro other first second hfirst hsecond
      rw [(hgiven.mp hfirst).2, (hgiven.mp hsecond).2]

end AliasConfig

namespace AliasTable

/-- Aliases are just the words that a text can hold. A text that is not empty, has no comma in it
and no blank at its ends is taken as an alias of a keyword if and only if the lexer gives it as
one identifier, and with the table that results the lexer gives it as that keyword. -/
theorem configure_single_iff_readsAs (word : String) (keyword : Keyword) (hne : word ≠ "")
    (hcomma : ',' ∉ word.toList) (hfirst : ∀ c ∈ word.toList.head?, Text.isBlank c = false)
    (hlast : ∀ c ∈ word.toList.getLast?, Text.isBlank c = false) :
    ((∃ result added, AliasTable.empty.configure (.single word keyword) = .ok (result, added)) ↔
      Lexer.ReadsAs .empty word .ident) ∧
    ∀ result added, AliasTable.empty.configure (.single word keyword) = .ok (result, added) →
      Lexer.ReadsAs result word (.keyword keyword) := by
  have htrimmed := Text.trimChars_of_ends hfirst hlast
  rw [Lexer.readsAs_ident_iff hfirst,
    ← AliasConfig.not_faulty_single_iff keyword hne hcomma htrimmed]
  have hfine {result added : AliasTable}
      (h : AliasTable.empty.configure (.single word keyword) = .ok (result, added)) :
      ¬ (AliasConfig.single word keyword).Faulty .empty := by
    intro hfaulty
    obtain ⟨reason, herror⟩ := configure_of_faulty hfaulty
    rw [herror] at h
    cases h
  constructor
  · constructor
    · rintro ⟨result, added, h⟩
      exact hfine h
    · intro hnot
      obtain ⟨result, added, h, _, _⟩ := configure_of_not_faulty distinct_empty hnot
      exact ⟨result, added, h⟩
  · intro result added h
    obtain ⟨_, _, h', _, hextends⟩ := configure_of_not_faulty distinct_empty (hfine h)
    obtain ⟨rfl, rfl⟩ := Prod.mk.inj (Except.ok.inj (h.symm.trans h'))
    obtain ⟨hword, hreserved⟩ :=
      (AliasConfig.not_faulty_single_iff keyword hne hcomma htrimmed).mp (hfine h)
    have hgives : (AliasConfig.single word keyword).Gives word keyword :=
      (AliasConfig.gives_single_iff hne hcomma htrimmed).mpr ⟨rfl, rfl⟩
    have halias := (hextends.get? word keyword).mpr (.inl hgives)
    exact Lexer.readsAs_keyword hword hreserved halias hfirst

/-- A word with a letter outside ASCII and a digit. -/
theorem configure_single_iff_readsAs_accented :
    (∃ result added,
      AliasTable.empty.configure (.single "función2" .fnWord) = .ok (result, added)) ∧
    ∀ result added,
      AliasTable.empty.configure (.single "función2" .fnWord) = .ok (result, added) →
      Lexer.ReadsAs result "función2" (.keyword .fnWord) := by
  have hfirst : ∀ c ∈ "función2".toList.head?, Text.isBlank c = false := by
    rintro _ ⟨⟩
    decide
  have hlast : ∀ c ∈ "función2".toList.getLast?, Text.isBlank c = false := by
    rintro _ ⟨⟩
    decide
  obtain ⟨htaken, hread⟩ := configure_single_iff_readsAs "función2" .fnWord (by decide)
    (by decide) hfirst hlast
  refine ⟨htaken.mpr ⟨1, 9, ?_⟩, hread⟩
  decide +kernel

end AliasTable

end Scriptlet
