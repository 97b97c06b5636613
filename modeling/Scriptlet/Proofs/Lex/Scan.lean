import Scriptlet.Proofs.Number.Numeral
import Scriptlet.Token.Lexer

/-!
What the lexer reads at one place of a text. Layout before a token makes no
difference; a word, a number, a symbol or a quoted text that stands at the place
is read as the token it spells, provided that what follows does not make it
longer. The tokens of a text are those of its steps, one after the other, and
each of them takes at least one character.
-/

namespace Scriptlet

namespace Reader

theorem step_rest (r : Reader) : r.step.rest = r.rest.tail := by
  unfold step
  split
  next h => simp [h]
  next c rest h => split <;> simp [h]

theorem skip_rest (r : Reader) (n : Nat) : (r.skip n).rest = r.rest.drop n := by
  induction n generalizing r with
  | zero => rfl
  | succ n ih => rw [skip, ih, step_rest, List.drop_tail]

/-- Behind characters that are skipped is what followed them. -/
theorem skip_append {r : Reader} {cs rest : List Char} (h : r.rest = cs ++ rest) :
    (r.skip cs.length).rest = rest := by
  rw [skip_rest, h, List.drop_left]

theorem takeWhile_eq (r : Reader) (p : Char → Bool) :
    r.takeWhile p =
      (String.ofList (r.rest.takeWhile p), r.skip (r.rest.takeWhile p).length) := by
  unfold takeWhile take
  rw [← List.prefix_iff_eq_take.mp (List.takeWhile_prefix p)]

end Reader

namespace Text

theorem isWordChar_of_isWordStart {c : Char} (h : isWordStart c = true) :
    isWordChar c = true := by
  simp only [isWordStart, isWordChar, isAlphanumeric, Bool.or_eq_true] at *
  rcases h with hletter | hunderscore
  · exact .inl (.inl (.inl hletter))
  · exact .inr hunderscore

theorem isWordChar_of_isDigit {c : Char} (h : isDigit c = true) : isWordChar c = true := by
  simp [isWordChar, isAlphanumeric, h]

/-- The digits in which numbers are written. -/
theorem isDigit_of_isDigit {c : Char} (h : c.isDigit = true) : isDigit c = true := by
  have hbounds := digit_bounds h
  have hascii : c.toNat < 128 := by omega
  simp [isDigit, hascii, hbounds]

end Text

/-- What may follow a token without making it longer: nothing that goes on with a
word, and no second half of a symbol. -/
def Apart (cs : List Char) : Prop :=
  ∀ c ∈ cs.head?, Text.isWordChar c = false ∧ c ≠ '='

/-- A text that does not start with an equals sign. -/
def Opens (cs : List Char) : Prop :=
  ∀ c ∈ cs.head?, c ≠ '='

theorem Apart.opens {cs : List Char} (h : Apart cs) : Opens cs :=
  fun c hc => (h c hc).2

theorem Apart.append {cs ds : List Char} (hcs : Apart cs) (hds : Apart ds) :
    Apart (cs ++ ds) := by
  cases cs with
  | nil => exact hds
  | cons c cs => exact hcs

theorem Opens.append {cs ds : List Char} (hcs : Opens cs) (hds : Opens ds) :
    Opens (cs ++ ds) := by
  cases cs with
  | nil => exact hds
  | cons c cs => exact hcs

/-- A class whose members all go on with a word ends before what stands apart. -/
theorem Apart.takeWhile_append {cs rest : List Char} {p : Char → Bool}
    (hall : ∀ c ∈ cs, p c = true) (hclass : ∀ c, p c = true → Text.isWordChar c = true)
    (hrest : Apart rest) : (cs ++ rest).takeWhile p = cs := by
  have hstop : rest.takeWhile p = [] := by
    cases rest with
    | nil => rfl
    | cons c rest =>
        have hword := (hrest c rfl).1
        have hout : ¬ p c = true := fun h => by simp [hclass c h] at hword
        exact List.takeWhile_cons_of_neg hout
  rw [List.takeWhile_append_of_pos hall, hstop, List.append_nil]

namespace Lexer

variable {table : AliasTable}

theorem layoutLength_go (comment : Bool) (cs : List Char) (count : Nat) :
    layoutLength.go comment cs count = layoutLength.go comment cs 0 + count := by
  induction cs generalizing comment count with
  | nil => simp [layoutLength.go]
  | cons c cs ih =>
      cases comment with
      | true =>
          simp only [layoutLength.go]
          rw [ih _ (count + 1), ih _ (0 + 1)]
          omega
      | false =>
          simp only [layoutLength.go]
          split
          · rw [ih _ (count + 1), ih _ (0 + 1)]
            omega
          · split
            · rw [ih _ (count + 1), ih _ (0 + 1)]
              omega
            · omega

/-- A character that neither is a blank nor starts a comment. -/
def IsInk (c : Char) : Prop :=
  Text.isBlank c = false ∧ c ≠ '#'

theorem layoutLength_ink {c : Char} (h : IsInk c) (cs : List Char) :
    layoutLength (c :: cs) = 0 := by
  simp [layoutLength, layoutLength.go, h.1, h.2]

/-- A blank is skipped and what follows is looked at in the same way. -/
theorem layoutLength_blank {c : Char} (h : Text.isBlank c = true) (cs : List Char) :
    layoutLength (c :: cs) = layoutLength cs + 1 := by
  simp only [layoutLength, layoutLength.go, h, if_true]
  exact layoutLength_go false cs (0 + 1)

/-- Behind the layout there is ink or nothing. -/
theorem drop_layoutLength_go (comment : Bool) (cs : List Char) :
    ∀ c ∈ (cs.drop (layoutLength.go comment cs 0)).head?, IsInk c := by
  induction cs generalizing comment with
  | nil => simp [layoutLength.go]
  | cons d cs ih =>
      cases comment with
      | true =>
          simp only [layoutLength.go]
          rw [layoutLength_go, List.drop_succ_cons]
          exact ih _
      | false =>
          simp only [layoutLength.go]
          split
          · rw [layoutLength_go, List.drop_succ_cons]
            exact ih _
          · split
            · rw [layoutLength_go, List.drop_succ_cons]
              exact ih _
            next hblank hcomment =>
              intro c hc
              have hcd : d = c := by simpa using hc
              subst hcd
              exact ⟨by simpa using hblank, by simpa using hcomment⟩

/-- Layout is skipped as far as it goes. -/
theorem skipLayout_ink (r : Reader) : ∀ c ∈ (skipLayout r).rest.head?, IsInk c := by
  unfold skipLayout
  rw [Reader.skip_rest]
  exact drop_layoutLength_go false r.rest

theorem next_of_ink {r : Reader} {c : Char} {cs : List Char} (hrest : r.rest = c :: cs)
    (h : IsInk c) : next table r = readToken table r := by
  unfold next skipLayout
  rw [hrest, layoutLength_ink h]
  rfl

/-- A blank makes no difference to the next token but for its place. -/
theorem next_of_blank {r : Reader} {c : Char} {cs : List Char} (hrest : r.rest = c :: cs)
    (h : Text.isBlank c = true) : next table r = next table r.step := by
  have hstep : r.step.rest = cs := by rw [Reader.step_rest, hrest, List.tail_cons]
  unfold next skipLayout
  rw [hrest, layoutLength_blank h, hstep]
  rfl

/-- The reserved lexemes of two characters. -/
def doubles : List (List Char) :=
  [['i', 'f'], ['f', 'n'], ['=', '='], ['!', '='], ['&', '&'], ['|', '|']]

theorem reserved_double : ∀ entry ∈ reserved, entry.1.toList.length = 2 →
    entry.1.toList ∈ doubles := by
  decide

theorem reservedKind?_double {c d : Char} (h : [c, d] ∉ doubles) :
    reservedKind? (String.ofList [c, d]) = none := by
  unfold reservedKind?
  rw [List.lookup_eq_none_iff]
  intro entry hentry
  rw [bne_iff_ne]
  intro heq
  have hlist : entry.1.toList = [c, d] := by rw [← heq, String.toList_ofList]
  apply h
  rw [← hlist]
  exact reserved_double entry hentry (by rw [hlist]; rfl)

theorem symbol?_one {c : Char} {kind : Kind} {rest : List Char}
    (h : reservedKind? (String.ofList [c]) = some kind)
    (hrest : ∀ d ∈ rest.head?, [c, d] ∉ doubles) :
    symbol? (c :: rest) = some (String.ofList [c], kind) := by
  cases rest with
  | nil =>
      simp only [symbol?, List.take, String.length_ofList, List.length_cons, List.length_nil, h]
      rfl
  | cons d rest =>
      have hnone := reservedKind?_double (hrest d rfl)
      simp only [symbol?, List.take, String.length_ofList, List.length_cons, List.length_nil,
        h, hnone]
      rfl

theorem symbol?_two {c d : Char} {kind : Kind} {rest : List Char}
    (h : reservedKind? (String.ofList [c, d]) = some kind) :
    symbol? (c :: d :: rest) = some (String.ofList [c, d], kind) := by
  simp only [symbol?, List.take, String.length_ofList, List.length_cons, List.length_nil, h]
  rfl

end Lexer

namespace Symbol

open Lexer

theorem reservedKind?_lexeme (mark : Symbol) :
    reservedKind? mark.lexeme = some (.symbol mark) := by
  cases mark <;> rfl

theorem lexeme_chars (mark : Symbol) :
    (∃ c, mark.lexeme.toList = [c]) ∨ ∃ c d, mark.lexeme.toList = [c, d] := by
  cases mark
  case equal | notEqual | and | or => exact .inr ⟨_, _, rfl⟩
  all_goals exact .inl ⟨_, rfl⟩

/-- Just two symbols become another one when something follows, and that is an
equals sign. -/
theorem double_of_lexeme {mark : Symbol} {c d : Char} (hmark : mark.lexeme.toList = [c])
    (h : [c, d] ∈ doubles) : (mark = .bang ∨ mark = .assign) ∧ d = '=' := by
  simp only [doubles, List.mem_cons, List.cons.injEq, and_true, List.not_mem_nil,
    or_false] at h
  rcases h with h | h | h | h | h | h <;> obtain ⟨rfl, rfl⟩ := h <;>
    revert hmark <;> cases mark <;> decide

/-- A symbol is read whole and no longer one is, unless `=` follows one that it lengthens. -/
theorem symbol?_lexeme (mark : Symbol) {rest : List Char}
    (hrest : mark = .bang ∨ mark = .assign → Opens rest) :
    symbol? (mark.lexeme.toList ++ rest) = some (mark.lexeme, .symbol mark) := by
  have hkind := reservedKind?_lexeme mark
  have hlexeme : mark.lexeme = String.ofList mark.lexeme.toList := String.ofList_toList.symm
  rcases lexeme_chars mark with ⟨c, hc⟩ | ⟨c, d, hcd⟩
  · rw [hc] at hlexeme ⊢
    rw [hlexeme] at hkind ⊢
    apply symbol?_one hkind
    intro d hd hdouble
    obtain ⟨hmark, rfl⟩ := double_of_lexeme hc hdouble
    exact hrest hmark '=' hd rfl
  · rw [hcd] at hlexeme ⊢
    rw [hlexeme] at hkind ⊢
    exact symbol?_two hkind

/-- A symbol starts with ink that starts no other kind of token. -/
theorem lexeme_cons (mark : Symbol) : ∃ c cs, mark.lexeme.toList = c :: cs ∧ IsInk c ∧
    Text.isWordChar c = false ∧ Quoting.isQuote c = false := by
  cases mark <;> exact ⟨_, _, rfl, ⟨by decide, by decide⟩, by decide, by decide⟩

end Symbol

namespace Quoting

/-- An escape is read as the character that it stands for. -/
theorem scanQuoted_go_escape (c : Char) (cs decoded : List Char) (count : Nat) :
    scanQuoted.go '"' (escape c ++ cs) decoded count =
      scanQuoted.go '"' cs (c :: decoded) (count + (escape c).length) := by
  unfold escape
  split
  next h =>
    obtain rfl : c = '\\' := by simpa using h
    rfl
  split
  next h =>
    obtain rfl : c = '"' := by simpa using h
    rfl
  split
  next h =>
    obtain rfl : c = '\n' := by simpa using h
    rfl
  split
  next h =>
    obtain rfl : c = '\t' := by simpa using h
    rfl
  next hslash hquote _ _ =>
    rw [List.cons_append, List.nil_append, scanQuoted.go.eq_def]
    simp only [if_neg hquote, if_neg hslash]
    rfl

/-- By induction on the text: its escapes are read back one by one up to the closing quote. -/
theorem scanQuoted_go_quoted (cs rest decoded : List Char) (count : Nat) :
    scanQuoted.go '"' (cs.flatMap escape ++ '"' :: rest) decoded count =
      some (decoded.reverse ++ cs, count + (cs.flatMap escape).length + 1) := by
  induction cs generalizing decoded count with
  | nil =>
      rw [List.flatMap_nil, List.nil_append, scanQuoted.go.eq_def]
      simp
  | cons c cs ih =>
      rw [List.flatMap_cons, List.append_assoc, scanQuoted_go_escape, ih]
      simp [Nat.add_assoc]

/-- Reading a quoted text gives the text, whatever follows. -/
theorem scanQuoted_quoted (cs rest : List Char) :
    scanQuoted '"' (cs.flatMap escape ++ '"' :: rest) =
      some (cs, (cs.flatMap escape).length + 1) := by
  unfold scanQuoted
  rw [scanQuoted_go_quoted]
  simp

end Quoting

namespace Lexer

variable {table : AliasTable} {r : Reader} {rest : List Char}

theorem next_symbol (mark : Symbol) (h : r.rest = mark.lexeme.toList ++ rest)
    (hrest : mark = .bang ∨ mark = .assign → Opens rest) :
    next table r = (⟨.symbol mark, mark.lexeme, r.line, r.column⟩,
      r.skip mark.lexeme.toList.length) := by
  obtain ⟨c, cs, hlexeme, hink, hword, hquote⟩ := mark.lexeme_cons
  have hcons : r.rest = c :: (cs ++ rest) := by rw [h, hlexeme, List.cons_append]
  have hstart : ¬ Text.isWordStart c = true := by
    intro hstart
    simp [Text.isWordChar_of_isWordStart hstart] at hword
  have hdigit : ¬ Text.isDigit c = true := by
    intro hdigit
    simp [Text.isWordChar_of_isDigit hdigit] at hword
  have hsymbol : readSymbol? r = some (⟨.symbol mark, mark.lexeme, r.line, r.column⟩,
      r.skip mark.lexeme.toList.length) := by
    unfold readSymbol?
    rw [h, mark.symbol?_lexeme hrest, String.length_toList]
    rfl
  rw [next_of_ink hcons hink]
  unfold readToken
  simp only [hcons, hstart, hdigit, hquote, if_false, hsymbol, Option.getD_some,
    Bool.false_eq_true]

/-- Letters and digits up to one that goes on no word are taken as one word. -/
theorem next_word {cs : List Char} (h : r.rest = cs ++ rest) (hword : Text.isWord cs = true)
    (hink : ∀ c ∈ cs.head?, IsInk c) (hrest : Apart rest) :
    next table r =
      (wordToken table (String.ofList cs) r.line r.column, r.skip cs.length) := by
  cases cs with
  | nil => cases hword
  | cons c cs =>
      obtain ⟨hstart, hall⟩ : Text.isWordStart c = true ∧
          ∀ d ∈ c :: cs, Text.isWordChar d = true := by
        simpa only [Text.isWord, Bool.and_eq_true, List.all_eq_true] using hword
      have htake : r.rest.takeWhile Text.isWordChar = c :: cs := by
        rw [h]
        exact hrest.takeWhile_append hall fun _ hd => hd
      rw [next_of_ink h (hink c rfl)]
      unfold readToken
      simp only [h, List.cons_append, hstart, if_true]
      unfold readWord
      rw [Reader.takeWhile_eq, htake]

theorem ink_of_isDigit {c : Char} (h : c.isDigit = true) :
    IsInk c ∧ Text.isWordStart c = false := by
  have hbounds := digit_bounds h
  have hne (d : Char) (hd : d.toNat < 48 ∨ 57 < d.toNat) : c ≠ d := by
    rintro rfl
    omega
  have hascii : c.toNat < 128 := by omega
  constructor
  · constructor
    · simp only [Text.isBlank, Text.classOf, hascii, if_true]
      simp
      omega
    · exact hne '#' (by decide)
  · simp only [Text.isWordStart, Text.isLetter, Text.classOf, hascii, if_true,
      beq_eq_false_iff_ne.mpr (hne '_' (by decide))]
    simp
    omega

theorem next_number {cs : List Char} (h : r.rest = cs ++ rest) (hnonempty : cs ≠ [])
    (hdigits : ∀ c ∈ cs, c.isDigit = true) (hrest : Apart rest) :
    next table r = (⟨.number, String.ofList cs, r.line, r.column⟩, r.skip cs.length) := by
  cases cs with
  | nil => exact absurd rfl hnonempty
  | cons c cs =>
      have hall (d : Char) (hd : d ∈ c :: cs) : Text.isDigit d = true :=
        Text.isDigit_of_isDigit (hdigits d hd)
      have hdigit := hall c (by simp)
      obtain ⟨hink, hstart⟩ := ink_of_isDigit (hdigits c (by simp))
      have htake : r.rest.takeWhile Text.isDigit = c :: cs := by
        rw [h]
        exact hrest.takeWhile_append hall fun _ hd => Text.isWordChar_of_isDigit hd
      rw [next_of_ink h hink]
      unfold readToken
      simp only [h, List.cons_append, hstart, hdigit, if_true, Bool.false_eq_true, if_false]
      rw [Reader.takeWhile_eq, htake]

/-- A text between its quotes is taken as one token, wherever it stands. -/
theorem next_quoted (cs : List Char) (h : r.rest = Quoting.quoteChars cs ++ rest) :
    next table r = (⟨.text, String.ofList cs, r.line, r.column⟩,
      r.skip (Quoting.quoteChars cs).length) := by
  have hcons : r.rest = '"' :: (cs.flatMap Quoting.escape ++ '"' :: rest) := by
    rw [h, Quoting.quoteChars]
    simp
  have hink : IsInk '"' := ⟨by decide, by decide⟩
  have hlength : (Quoting.quoteChars cs).length = (cs.flatMap Quoting.escape).length + 1 + 1 := by
    simp [Quoting.quoteChars]
  have hread : readQuoted r = .ok (⟨.text, String.ofList cs, r.line, r.column⟩,
      r.skip (Quoting.quoteChars cs).length) := by
    unfold readQuoted
    simp only [hcons, Quoting.scanQuoted_quoted, hlength]
  rw [next_of_ink hcons hink]
  unfold readToken
  simp only [hcons, hread]
  rfl

end Lexer

end Scriptlet
