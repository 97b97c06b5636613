import Scriptlet.Proofs.Lex.Lexeme

/-!
Reading tokens with an eye on the end of the text. Here each character is asked for one by
one, which fails if there is none left, and the number of tokens that may be read is limited.
Neither matters: no more characters are asked for than there are, and every token takes one.
-/

namespace Scriptlet

/-- Asks for `n` characters, one after the other. -/
def Reader.consume (r : Reader) : Nat → Except EndOfText Reader
  | 0 => return r
  | n + 1 => do
    let (_, after) ← r.next
    after.consume n

theorem Reader.consume_eq {r : Reader} {n : Nat} (h : n ≤ r.rest.length) :
    r.consume n = .ok (r.skip n) := by
  induction n generalizing r with
  | zero => rfl
  | succ n ih =>
      cases hrest : r.rest with
      | nil => simp [hrest] at h
      | cons c cs =>
          have hnext : r.next = .ok (c, r.step) := by
            unfold next
            rw [hrest]
          have hstep : n ≤ r.step.rest.length := by
            rw [step_rest, hrest]
            simpa [hrest] using h
          unfold consume
          rw [hnext]
          exact ih hstep

namespace Lexer

namespace Checked

def skipLayout (r : Reader) : Except EndOfText Reader :=
  r.consume (layoutLength r.rest)

def takeWhile (r : Reader) (p : Char → Bool) : Except EndOfText (String × Reader) := do
  return (String.ofList (r.rest.takeWhile p), ← r.consume (r.rest.takeWhile p).length)

def readSymbol? (r : Reader) : Except EndOfText (Option (Token × Reader)) :=
  match symbol? r.rest with
  | some (lexeme, kind) => do
    return some (⟨kind, lexeme, r.line, r.column⟩, ← r.consume lexeme.length)
  | none => return none

def readQuoted (r : Reader) : Except EndOfText (Token × Reader) := do
  let (opening, inner) ← r.next
  match Quoting.scanQuoted opening inner.rest with
  | some (decoded, count) =>
    return (⟨.text, String.ofList decoded, r.line, r.column⟩, ← inner.consume count)
  | none =>
    return (⟨.fault, String.ofList r.rest, r.line, r.column⟩,
      ← inner.consume inner.rest.length)

def readToken (aliases : AliasTable) (r : Reader) : Except EndOfText (Token × Reader) :=
  match r.rest with
  | [] => return (.finish r.line r.column, r)
  | c :: _ =>
    if Text.isWordStart c then do
      let (word, after) ← takeWhile r Text.isWordChar
      return (wordToken aliases word r.line r.column, after)
    else if Text.isDigit c then do
      let (digits, after) ← takeWhile r Text.isDigit
      return (⟨.number, digits, r.line, r.column⟩, after)
    else if Quoting.isQuote c then readQuoted r
    else do
      match ← readSymbol? r with
      | some result => return result
      | none =>
        let (stray, after) ← r.next
        return (⟨.fault, stray.toString, r.line, r.column⟩, after)

/-- Reads at most `limit` tokens up to the finishing one, and gives nothing if there are
more. -/
def tokens (aliases : AliasTable) : Nat → Reader → Except EndOfText (Option (List Token))
  | 0, _ => return none
  | limit + 1, r => do
    let (token, after) ← readToken aliases (← skipLayout r)
    if token.kind = .finish then return some [token]
    else return (← tokens aliases limit after).map (token :: ·)

def tokenize (limit : Nat) (aliases : AliasTable) (text : String) :
    Except EndOfText (Option (List Token)) :=
  tokens aliases limit (.ofString text)

end Checked

theorem layoutLength_go_le (comment : Bool) (cs : List Char) :
    layoutLength.go comment cs 0 ≤ cs.length := by
  induction cs generalizing comment with
  | nil => exact Nat.le_refl _
  | cons c cs ih =>
      cases comment with
      | true =>
          simp only [layoutLength.go]
          rw [layoutLength_go]
          exact Nat.succ_le_succ (ih _)
      | false =>
          simp only [layoutLength.go]
          split
          · rw [layoutLength_go]
            exact Nat.succ_le_succ (ih _)
          · split
            · rw [layoutLength_go]
              exact Nat.succ_le_succ (ih _)
            · exact Nat.zero_le _

namespace Checked

variable {r : Reader} {c : Char} {cs : List Char}

theorem ok_bind {α β : Type} (a : α) (next : α → Except EndOfText β) :
    (Except.ok a >>= next) = next a :=
  rfl

theorem skipLayout_eq (r : Reader) : skipLayout r = .ok (Lexer.skipLayout r) :=
  Reader.consume_eq (layoutLength_go_le false r.rest)

theorem takeWhile_eq (r : Reader) (p : Char → Bool) :
    takeWhile r p = .ok (r.takeWhile p) := by
  have hle : (r.rest.takeWhile p).length ≤ r.rest.length := (List.takeWhile_prefix p).length_le
  unfold takeWhile
  rw [Reader.consume_eq hle, Reader.takeWhile_eq]
  rfl

theorem readSymbol?_eq (r : Reader) : readSymbol? r = .ok (Lexer.readSymbol? r) := by
  unfold readSymbol? Lexer.readSymbol?
  cases hsymbol : symbol? r.rest with
  | some found =>
      obtain ⟨lexeme, kind⟩ := found
      have hle := (symbol?_eq_some hsymbol).1.length_le
      rw [String.length_toList] at hle
      simp only [Reader.consume_eq hle]
      rfl
  | none => rfl

theorem next_eq (hrest : r.rest = c :: cs) : r.next = .ok (c, r.step) := by
  unfold Reader.next
  rw [hrest]

theorem readQuoted_eq (r : Reader) : readQuoted r = Lexer.readQuoted r := by
  unfold readQuoted Lexer.readQuoted
  cases hrest : r.rest with
  | nil =>
      unfold Reader.next
      rw [hrest]
      rfl
  | cons c cs =>
      have hinner : r.step.rest = cs := by rw [Reader.step_rest, hrest, List.tail_cons]
      simp only [next_eq hrest, ok_bind, hinner]
      cases hscan : Quoting.scanQuoted c cs with
      | some found =>
          obtain ⟨decoded, count⟩ := found
          have hle : count ≤ r.step.rest.length := by
            rw [hinner]
            exact (Quoting.scanQuoted_count hscan).1
          simp only [Reader.consume_eq hle]
          rfl
      | none =>
          have hle : cs.length ≤ r.step.rest.length := Nat.le_of_eq (by rw [hinner])
          simp only [Reader.consume_eq hle]
          rfl

theorem readToken_eq (aliases : AliasTable) (r : Reader) :
    readToken aliases r = .ok (Lexer.readToken aliases r) := by
  unfold readToken Lexer.readToken
  cases hrest : r.rest with
  | nil => rfl
  | cons c cs =>
      simp only [takeWhile_eq, readQuoted_eq, readSymbol?_eq, next_eq hrest]
      split
      · rfl
      split
      · rfl
      split
      · unfold Lexer.readQuoted
        simp only [hrest]
        cases Quoting.scanQuoted c cs <;> rfl
      · cases Lexer.readSymbol? r <;> rfl

/-- With more tokens allowed than there are characters, all of them are read. -/
theorem tokens_eq (aliases : AliasTable) {limit fuel : Nat} {r : Reader} (read : List Token)
    (hlimit : r.rest.length < limit) (hfuel : r.rest.length < fuel) :
    ∃ ts finish after, tokens aliases limit r = .ok (some (ts ++ [finish])) ∧
      Lexer.tokens.go aliases fuel r read = (read.reverse ++ ts, finish, after) := by
  induction limit generalizing fuel r read with
  | zero => exact absurd hlimit (Nat.not_lt_zero _)
  | succ limit ih =>
      cases fuel with
      | zero => exact absurd hfuel (Nat.not_lt_zero _)
      | succ fuel =>
          unfold tokens Lexer.tokens.go
          simp only [skipLayout_eq, readToken_eq, ok_bind]
          cases hnext : Lexer.next aliases r with
          | mk token after =>
              have hread : Lexer.readToken aliases (Lexer.skipLayout r) = (token, after) :=
                hnext
              by_cases hkind : token.kind = .finish
              · refine ⟨[], token, after, ?_, ?_⟩
                · simp only [hread, hkind, if_true]
                  rfl
                · simp only [hkind, if_true, List.append_nil]
              · have hlt := next_length_lt hnext hkind
                have hlimit' : after.rest.length < limit := by omega
                have hfuel' : after.rest.length < fuel := by omega
                obtain ⟨ts, finish, last, htokens, hgo⟩ := ih (token :: read) hlimit' hfuel'
                refine ⟨token :: ts, finish, last, ?_, ?_⟩
                · simp only [hread, hkind, if_false, htokens]
                  rfl
                · simp only [hkind, if_false, hgo, List.reverse_cons, List.append_assoc,
                    List.singleton_append]

/-- Reading the tokens of a text comes to an end, and no character behind the end of the text
is asked for. -/
theorem tokenize_eq (aliases : AliasTable) (text : String) {limit : Nat}
    (h : text.length < limit) :
    tokenize limit aliases text = .ok (some (Lexer.tokenize aliases text)) := by
  have hlimit : (Reader.ofString text).rest.length < limit := by
    rwa [← String.length_toList] at h
  obtain ⟨ts, finish, after, htokens, hgo⟩ := tokens_eq aliases [] hlimit (Nat.lt_succ_self _)
  unfold tokenize Lexer.tokenize Lexer.ofString Lexer.tokens
  rw [htokens, hgo]
  rfl

end Checked

end Lexer

end Scriptlet
