import Scriptlet.Proofs.Lex.Run

/-!
Texts that the lexer reads as tokens of a given form wherever they stand, provided
that what follows stands apart. Such texts are put together like the canonical text
of a tree: symbols, keywords, names, numbers and quoted texts, one behind the
other, with blanks between them.
-/

namespace Scriptlet

open Lexer

/-- The lexer reads the text as tokens of the form and stops behind it. -/
def Spelling (table : AliasTable) (cs : List Char) (form : List Token → Prop) : Prop :=
  ∀ (r : Reader) (rest : List Char), r.rest = cs ++ rest → Apart rest →
    ∃ ts r', Scans table r ts r' ∧ r'.rest = rest ∧ form ts

/-- Behind a blank no token goes on. -/
theorem apart_blank (cs : List Char) : Apart (' ' :: cs) := by
  intro c hc
  obtain rfl : ' ' = c := by simpa using hc
  decide

/-- Nor does one go on with a symbol, unless the symbol can be the second half of another. -/
theorem apart_lexeme {mark : Symbol} (h : mark ≠ .assign ∧ mark ≠ .equal)
    (cs : List Char) : Apart (mark.lexeme.toList ++ cs) := by
  obtain ⟨c, ds, hlexeme, _, hword, _⟩ := mark.lexeme_cons
  have hequals : c ≠ '=' := by
    rintro rfl
    revert hlexeme
    cases mark <;> simp_all [Symbol.lexeme]
  intro d hd
  rw [hlexeme] at hd
  obtain rfl : c = d := by simpa using hd
  exact ⟨hword, hequals⟩

/-- The pairs of brackets. -/
inductive Bracket where
  | paren
  | square
  | curly

namespace Bracket

def opening : Bracket → Symbol
  | .paren => .leftParen
  | .square => .leftBracket
  | .curly => .leftBrace

def closing : Bracket → Symbol
  | .paren => .rightParen
  | .square => .rightBracket
  | .curly => .rightBrace

/-- Brackets are read by themselves, whatever stands next to them. -/
theorem plain_opening (bracket : Bracket) :
    (bracket.opening ≠ .bang ∧ bracket.opening ≠ .assign) ∧
      bracket.opening ≠ .assign ∧ bracket.opening ≠ .equal := by
  cases bracket <;> decide

theorem plain_closing (bracket : Bracket) :
    (bracket.closing ≠ .bang ∧ bracket.closing ≠ .assign) ∧
      bracket.closing ≠ .assign ∧ bracket.closing ≠ .equal := by
  cases bracket <;> decide

end Bracket

theorem apart_opening (bracket : Bracket) (cs : List Char) :
    Apart (bracket.opening.lexeme.toList ++ cs) :=
  apart_lexeme bracket.plain_opening.2 cs

namespace Spelling

variable {table : AliasTable} {cs ds : List Char} {form form' : List Token → Prop}

/-- The form of the tokens can be weakened. -/
theorem mono (h : Spelling table cs form) (hform : ∀ ts, form ts → form' ts) :
    Spelling table cs form' := by
  intro r rest hr hrest
  obtain ⟨ts, r', hscans, hr', hts⟩ := h r rest hr hrest
  exact ⟨ts, r', hscans, hr', hform ts hts⟩

theorem of_text (h : Spelling table cs form) (htext : ds = cs)
    (hform : ∀ ts, form ts → form' ts) : Spelling table ds form' := by
  rw [htext]
  exact h.mono hform

/-- A token before tokens of a form. -/
def Led (first : Token → Prop) (form : List Token → Prop) (ts : List Token) : Prop :=
  ∃ t us, ts = t :: us ∧ first t ∧ form us

/-- Tokens of a form before tokens of another. -/
def Joined (form form' : List Token → Prop) (ts : List Token) : Prop :=
  ∃ us vs, ts = us ++ vs ∧ form us ∧ form' vs

theorem nil : Spelling table [] (· = []) := by
  intro r rest hr _
  exact ⟨[], r, .done r, hr, rfl⟩

/-- The lexer reads two texts one after the other, if the second makes no token of the
first longer. -/
theorem append (hcs : Spelling table cs form) (hds : Spelling table ds form')
    (hapart : Apart ds) : Spelling table (cs ++ ds) (Joined form form') := by
  intro r rest hr hrest
  rw [List.append_assoc] at hr
  obtain ⟨us, r₁, hscans₁, hr₁, hus⟩ := hcs r (ds ++ rest) hr (hapart.append hrest)
  obtain ⟨vs, r₂, hscans₂, hr₂, hvs⟩ := hds r₁ rest hr₁ hrest
  exact ⟨us ++ vs, r₂, hscans₁.append hscans₂, hr₂, us, vs, rfl, hus, hvs⟩

/-- Blanks before a text are layout. -/
theorem blank (h : Spelling table cs form) : Spelling table (' ' :: cs) form := by
  intro r rest hr hrest
  have hstep : r.step.rest = cs ++ rest := by
    rw [Reader.step_rest, hr, List.cons_append, List.tail_cons]
  obtain ⟨ts, r', hscans, hr', hts⟩ := h r.step rest hstep hrest
  exact ⟨ts, r', .blank hr (by decide) hscans, hr', hts⟩

/-- So are blanks behind it. -/
theorem before_blank (h : Spelling table cs form) : Spelling table (cs ++ [' ']) form := by
  apply (h.append (blank nil) (apart_blank [])).mono
  rintro _ ⟨us, _, rfl, hus, rfl⟩
  rwa [List.append_nil]

/-- One step of the lexer over a text, wherever that stands. -/
theorem token {first : Token → Prop} (hds : Spelling table ds form)
    (hnext : ∀ (r : Reader) rest, r.rest = cs ++ (ds ++ rest) → Apart rest →
      ∃ t, next table r = (t, r.skip cs.length) ∧ t.kind ≠ .finish ∧ first t) :
    Spelling table (cs ++ ds) (Led first form) := by
  intro r rest hr hrest
  rw [List.append_assoc] at hr
  obtain ⟨t, ht, hkind, hfirst⟩ := hnext r rest hr hrest
  obtain ⟨us, r', hscans, hr', hus⟩ :=
    hds (r.skip cs.length) rest (Reader.skip_append hr) hrest
  exact ⟨t :: us, r', .token ht hkind hscans, hr', t, us, rfl, hfirst, hus⟩

/-- A text that is read as one token wherever it stands. -/
theorem single {first : Token → Prop}
    (hnext : ∀ (r : Reader) rest, r.rest = cs ++ rest → Apart rest →
      ∃ t, next table r = (t, r.skip cs.length) ∧ t.kind ≠ .finish ∧ first t) :
    Spelling table cs (fun ts => ∃ t, ts = [t] ∧ first t) := by
  have htoken : Spelling table (cs ++ []) (Led first (· = [])) := token nil hnext
  rw [List.append_nil] at htoken
  apply htoken.mono
  rintro _ ⟨t, _, rfl, hfirst, rfl⟩
  exact ⟨t, rfl, hfirst⟩

/-- Only `!` and `=` can be begun by a symbol, so only for these it matters what follows. -/
theorem symbol (mark : Symbol) (hds : Spelling table ds form)
    (hopens : mark = .bang ∨ mark = .assign → Opens ds) :
    Spelling table (mark.lexeme.toList ++ ds)
      (Led (fun t => t.kind = .symbol mark ∧ t.value = mark.lexeme) form) := by
  apply token hds
  intro r rest hr hrest
  exact ⟨_, next_symbol mark hr fun hmark => (hopens hmark).append hrest.opens,
    by simp, rfl, rfl⟩

theorem mark (mark : Symbol) (h : mark ≠ .bang ∧ mark ≠ .assign) :
    Spelling table mark.lexeme.toList (fun ts => ∃ t, ts = [t] ∧ t.kind = .symbol mark) := by
  apply single
  intro r rest hr _
  exact ⟨_, next_symbol mark hr fun hmark => hmark.elim (absurd · h.1) (absurd · h.2),
    by simp, rfl⟩

/-- Tokens of a form between two brackets. -/
def Enclosed (bracket : Bracket) (form : List Token → Prop) (ts : List Token) : Prop :=
  ∃ opening us closing, ts = opening :: (us ++ [closing]) ∧
    opening.kind = .symbol bracket.opening ∧ closing.kind = .symbol bracket.closing ∧ form us

/-- A text between brackets is read between their tokens. -/
theorem enclosed (bracket : Bracket) (h : Spelling table cs form) :
    Spelling table (bracket.opening.lexeme.toList ++ (cs ++ bracket.closing.lexeme.toList))
      (Enclosed bracket form) := by
  have hopening := bracket.plain_opening
  have hclosing := bracket.plain_closing
  have hapart : Apart bracket.closing.lexeme.toList := by
    simpa using apart_lexeme hclosing.2 []
  have hinner := h.append (mark bracket.closing hclosing.1) hapart
  have houter := symbol bracket.opening hinner fun hmark =>
    hmark.elim (absurd · hopening.1.1) (absurd · hopening.1.2)
  apply houter.mono
  rintro _ ⟨opening, _, rfl, ho, us, _, rfl, hus, closing, rfl, hc⟩
  exact ⟨opening, us, closing, rfl, ho.1, hc, hus⟩

/-- Keywords are words, so they are taken as one. -/
theorem isWord_lexeme (word : Keyword) : Text.isWord word.lexeme.toList = true := by
  cases word <;> rfl

theorem ink_lexeme (word : Keyword) : ∀ c ∈ word.lexeme.toList.head?, IsInk c := by
  obtain ⟨d, ds, hlexeme, hink⟩ : ∃ d ds, word.lexeme.toList = d :: ds ∧ IsInk d := by
    cases word <;> exact ⟨_, _, rfl, by decide, by decide⟩
  intro c hc
  rw [hlexeme] at hc
  obtain rfl : d = c := by simpa using hc
  exact hink

theorem word (word : Keyword) :
    Spelling table word.lexeme.toList
      (fun ts => ∃ t, ts = [t] ∧ t.kind = .keyword word) := by
  have hreserved : reservedKind? word.lexeme = some (.keyword word) := by cases word <;> rfl
  apply single
  intro r rest hr hrest
  refine ⟨_, next_word hr (isWord_lexeme word) (ink_lexeme word) hrest, ?_⟩
  rw [String.ofList_toList, wordToken, hreserved]
  exact ⟨by simp, rfl⟩

/-- A keyword is told from a longer word by what follows it. -/
theorem keyword (word : Keyword) (hds : Spelling table ds form) (hapart : Apart ds) :
    Spelling table (word.lexeme.toList ++ ds)
      (Led (fun t => t.kind = .keyword word) form) := by
  apply ((Spelling.word word).append hds hapart).mono
  rintro _ ⟨_, us, rfl, ⟨t, rfl, hkind⟩, hus⟩
  exact ⟨t, us, rfl, hkind, hus⟩

/-- A name that is read as a name once is read so anywhere. -/
theorem name {t : Token} (hlegible : t.Legible table) (hkind : t.kind = .ident) :
    Spelling table t.value.toList
      (fun ts => ∃ u : Token, ts = [u] ∧ u.kind = .ident ∧ u.value = t.value) := by
  obtain ⟨hword, hink, hreserved, halias⟩ := hlegible.ident hkind
  apply single
  intro r rest hr hrest
  refine ⟨_, next_word hr hword hink hrest, ?_⟩
  rw [String.ofList_toList, wordToken, hreserved, AliasTable.token?, halias]
  exact ⟨by simp, rfl, rfl⟩

/-- The text of an integer in range is one number, read back as the integer. -/
theorem integer {n : Int} (hnat : 0 ≤ n) (hmaximum : n ≤ Int64.maximum) :
    Spelling table (toString n).toList
      (fun ts => ∃ u : Token, ts = [u] ∧ u.kind = .number ∧
        Numeral.integer? u.value = some n) := by
  apply single
  intro r rest hr hrest
  have hnonempty : (toString n).toList ≠ [] := by
    rw [Numeral.toList_toString hnat]
    exact Nat.toDigits_ne_nil
  have hdigits (c : Char) (hc : c ∈ (toString n).toList) : c.isDigit = true :=
    Numeral.isDigit_of_mem_toString hnat hc
  refine ⟨_, next_number hr hnonempty hdigits hrest, by simp, rfl, ?_⟩
  rw [String.ofList_toList]
  exact Numeral.integer?_toString hnat hmaximum

/-- A quoted text is one token with the text as its value, whatever characters it has. -/
theorem quoted (text : String) :
    Spelling table (Quoting.quote text).toList
      (fun ts => ∃ u : Token, ts = [u] ∧ u.kind = .text ∧ u.value = text) := by
  rw [Quoting.quote, String.toList_ofList]
  apply single
  intro r rest hr _
  exact ⟨_, next_quoted text.toList hr, by simp, rfl, String.ofList_toList⟩

end Spelling

end Scriptlet
