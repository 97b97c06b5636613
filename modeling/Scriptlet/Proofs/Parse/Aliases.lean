import Scriptlet.Proofs.Alias.Requests
import Scriptlet.Proofs.Lex.Lexeme
import Scriptlet.Proofs.Parse.Layout

/-!
Aliases are a matter of spelling. With a table of aliases the lexer reads what it reads without,
but for the kind of the identifiers that are in the table; where tokens begin and end, and what
their values are, does not depend on the table. The parser does not look at the values of
keywords, so it makes no difference that an alias is still spelled as an alias.
-/

namespace Scriptlet

namespace AliasTable

variable (table : AliasTable)

/-- An identifier that is in the table becomes a keyword; its value stays. -/
def retype (t : Token) : Token :=
  if t.kind = .ident then
    match table.get? t.value with
    | some word => { t with kind := .keyword word }
    | none => t
  else t

/-- An identifier that is in the table becomes a keyword and is spelled as the language spells
it. -/
def respell (t : Token) : Token :=
  if t.kind = .ident then
    match table.get? t.value with
    | some word => { t with kind := .keyword word, value := word.lexeme }
    | none => t
  else t

variable {table} {t : Token}

theorem retype_of_ne (h : t.kind ≠ .ident) : table.retype t = t :=
  if_neg h

theorem retype_of_mem {keyword : Keyword} (hdistinct : table.Distinct) (h : t.kind = .ident)
    (hmem : (t.value, keyword) ∈ table.entries) :
    table.retype t = { t with kind := .keyword keyword } := by
  rw [retype, if_pos h, hdistinct.mem_iff.mp hmem]

theorem retype_of_not_mem (hdistinct : table.Distinct)
    (h : ∀ keyword, (t.value, keyword) ∉ table.entries) : table.retype t = t := by
  have hnone : table.get? t.value = none := by
    rw [Option.eq_none_iff_forall_ne_some]
    intro keyword hget
    exact h keyword (hdistinct.mem_iff.mpr hget)
  rw [retype, hnone]
  exact ite_self t

/-- For a table that requests have left, the identifiers that become keywords are those that
stand among its entries, and each becomes the keyword that stands with it. -/
theorem kind_retype_afterAll (requests : List AliasRequest) (t : Token) (keyword : Keyword) :
    ((afterAll requests).retype t).kind = .keyword keyword ↔
      t.kind = .keyword keyword ∨
        t.kind = .ident ∧ (t.value, keyword) ∈ (afterAll requests).entries := by
  have hdistinct := (sound_afterAll requests).distinct
  by_cases hident : t.kind = .ident
  · by_cases hentry : ∃ found, (t.value, found) ∈ (afterAll requests).entries
    · obtain ⟨found, hfound⟩ := hentry
      rw [retype_of_mem hdistinct hident hfound]
      simp only [hident, Kind.keyword.injEq, reduceCtorEq, true_and, false_or]
      rw [hdistinct.mem_iff] at hfound ⊢
      rw [hfound, Option.some.injEq]
    · push Not at hentry
      rw [retype_of_not_mem hdistinct hentry]
      simp [hident, hentry]
  · simp [retype_of_ne hident, hident]

theorem retype_ident (word : String) (line column : Nat) :
    table.retype ⟨.ident, word, line, column⟩ =
      (table.token? word line column).getD ⟨.ident, word, line, column⟩ := by
  unfold retype token?
  cases table.get? word <;> rfl

theorem retype_place (table : AliasTable) (t : Token) :
    (table.retype t).line = t.line ∧ (table.retype t).column = t.column := by
  unfold retype
  split
  · cases table.get? t.value <;> exact ⟨rfl, rfl⟩
  · exact ⟨rfl, rfl⟩

theorem respell_place (table : AliasTable) (t : Token) :
    (table.respell t).line = t.line ∧ (table.respell t).column = t.column := by
  unfold respell
  split
  · cases table.get? t.value <;> exact ⟨rfl, rfl⟩
  · exact ⟨rfl, rfl⟩

theorem kind_retype : (table.retype t).kind = .finish ↔ t.kind = .finish := by
  unfold retype
  split
  next hident =>
    split
    · simp [hident]
    · rfl
  next => rfl

end AliasTable

namespace Lexer

variable (table : AliasTable)

/-- The table is asked for words that are not reserved, and for nothing else. -/
theorem wordToken_retype (word : String) (line column : Nat) :
    wordToken table word line column = table.retype (wordToken .empty word line column) := by
  unfold wordToken
  split
  next kind hkind =>
    rcases reservedKind?_cases hkind with ⟨keyword, rfl, _⟩ | ⟨mark, rfl, _⟩
    · rfl
    · rfl
  next => exact (AliasTable.retype_ident word line column).symm

/-- A token that starts like no word is no identifier. -/
theorem readToken_kind_ne {r : Reader} {c : Char} {cs : List Char} (hrest : r.rest = c :: cs)
    (hstart : Text.isWordStart c = false) : (readToken table r).1.kind ≠ .ident := by
  have hne : r.rest ≠ [] := by
    rw [hrest]
    exact List.cons_ne_nil _ _
  obtain ⟨t, n, hreads⟩ := exists_reads table hne
  rw [hreads.result]
  intro hkind
  have hlexeme := hreads.lexeme
  unfold Token.Lexeme at hlexeme
  rw [hkind, hrest] at hlexeme
  cases n with
  | zero => exact absurd hreads.pos (Nat.lt_irrefl 0)
  | succ n => simp [Text.isWord, hstart] at hlexeme

theorem readToken_retype (r : Reader) :
    readToken table r = (table.retype (readToken .empty r).1, (readToken .empty r).2) := by
  cases hrest : r.rest with
  | nil =>
      unfold readToken
      rw [hrest]
      rfl
  | cons c cs =>
      cases hstart : Text.isWordStart c with
      | true =>
          unfold readToken
          simp only [hrest, hstart, if_true]
          exact congrArg (·, _) (wordToken_retype table _ r.line r.column)
      | false =>
          have hsame : readToken table r = readToken .empty r := by
            unfold readToken
            simp only [hrest, hstart, Bool.false_eq_true, if_false]
          rw [AliasTable.retype_of_ne (readToken_kind_ne .empty hrest hstart), hsame]

theorem tokens_go_retype (fuel : Nat) (r : Reader) (read : List Token) :
    tokens.go table fuel r (read.map table.retype) =
      ((tokens.go .empty fuel r read).1.map table.retype,
        (tokens.go .empty fuel r read).2) := by
  induction fuel generalizing r read with
  | zero => simp [tokens.go]
  | succ fuel ih =>
      unfold tokens.go next
      rw [readToken_retype]
      simp only [AliasTable.kind_retype]
      split
      next hkind =>
        have hne : (readToken .empty (skipLayout r)).1.kind ≠ .ident := by
          rw [hkind]
          exact Kind.noConfusion
        simp only [AliasTable.retype_of_ne hne, List.map_reverse]
      next => exact ih _ (_ :: read)

theorem ofString_retype (text : String) :
    ofString table text =
      ((ofString .empty text).1.map table.retype, (ofString .empty text).2) := by
  unfold ofString tokens
  rw [show ([] : List Token) = [].map table.retype from rfl, tokens_go_retype]
  rfl

theorem kind_finish (text : String) : (ofString table text).2.kind = .finish := by
  obtain ⟨ts, r, _, hend, hgo⟩ := tokens_go table _ (.ofString text) [] (Nat.lt_succ_self _)
  unfold ofString tokens
  rw [hgo]
  exact hend

theorem tokenize_retype (text : String) :
    tokenize table text = (tokenize .empty text).map table.retype := by
  have hne : (ofString .empty text).2.kind ≠ .ident := by
    rw [kind_finish]
    exact Kind.noConfusion
  unfold tokenize
  rw [ofString_retype, List.map_append, List.map_singleton, AliasTable.retype_of_ne hne]

end Lexer

namespace Relabelling

/-- Spells keywords as the language does. -/
def spelled : Relabelling where
  token t :=
    match t.kind with
    | .keyword word => { t with value := word.lexeme }
    | _ => t
  kind_token t := by
    split <;> rfl
  value_token t h := by
    split
    next word hword => exact absurd hword (h word)
    next => rfl

theorem place_spelled (t : Token) : (spelled.token t).place = t.place := by
  show (match t.kind with
    | .keyword word => { t with value := word.lexeme }
    | _ => t).place = t.place
  split <;> rfl

theorem message_spelled (d : Diagnostic) : (spelled.diagnostic d).message = d.message := by
  unfold diagnostic Diagnostic.message
  cases d with
  | expected wanted t =>
      dsimp only
      rw [spelled.kind_token, place_spelled]
  | noExpression t =>
      dsimp only
      rw [spelled.kind_token, place_spelled]
  | badInteger text => rfl

theorem spelled_retype (table : AliasTable) (t : Token) :
    spelled.token (table.retype t) = spelled.token (table.respell t) := by
  unfold AliasTable.retype AliasTable.respell
  split
  · cases table.get? t.value <;> rfl
  · rfl

end Relabelling

open Relabelling

theorem Token.finishOf_map {f : Token → Token}
    (h : ∀ t, (f t).line = t.line ∧ (f t).column = t.column) (tokens : List Token) :
    finishOf (tokens.map f) = finishOf tokens := by
  unfold finishOf
  rw [List.getLast?_map]
  cases tokens.getLast? with
  | none => rfl
  | some last => simp only [Option.map_some, h]

/-- Tokens that are spelled as aliases and as keywords are read alike. -/
theorem start_agrees (table : AliasTable) (tokens : List Token) (line column levels : Nat) :
    (Reading.ofCursor levels (.start (tokens.map table.retype) line column)).Agrees
      (fun d d' => d.message = d'.message)
      (Reading.ofCursor levels (.start (tokens.map table.respell) line column)) := by
  apply agrees_of_cursor_eq (r := spelled)
  · intro d d' h
    rw [← message_spelled d, h, message_spelled]
  · have htokens : (tokens.map table.retype).map spelled.token =
        (tokens.map table.respell).map spelled.token := by
      rw [List.map_map, List.map_map]
      exact List.map_congr_left fun t _ => spelled_retype table t
    rw [cursor_start rfl, cursor_start rfl, htokens]

/-- Aliases are pure spelling. With a table of aliases, the tokens of a text are those without,
but that exactly the identifiers in the table have become keywords of the kinds it gives them.
The parser, reading them from the text or from a list, gives the same diagnostics and a
structurally equal program if they are spelled as keywords too, and evaluation cannot tell the
programs apart. -/
theorem aliases_agree (table : AliasTable) (text : String) (levels : Nat) :
    Lexer.tokenize table text = (Lexer.tokenize .empty text).map table.retype ∧
      (Reading.ofTokens levels (Lexer.tokenize table text)).Agrees
        (fun d d' => d.message = d'.message)
        (Reading.ofTokens levels ((Lexer.tokenize .empty text).map table.respell)) ∧
      (Reading.ofText levels table text).Agrees (fun d d' => d.message = d'.message)
        (Reading.ofCursor levels (.start ((Lexer.ofString .empty text).1.map table.respell)
          (Lexer.ofString .empty text).2.line (Lexer.ofString .empty text).2.column)) := by
  have htokens := Lexer.tokenize_retype table text
  refine ⟨htokens, ?_, ?_⟩
  · rw [htokens]
    unfold Reading.ofTokens Cursor.ofTokens
    rw [Token.finishOf_map table.retype_place, Token.finishOf_map table.respell_place]
    exact start_agrees table _ _ _ levels
  · unfold Reading.ofText Cursor.ofText
    rw [Lexer.ofString_retype]
    exact start_agrees table _ _ _ levels

end Scriptlet
