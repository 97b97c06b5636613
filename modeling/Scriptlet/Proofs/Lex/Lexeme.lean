import Scriptlet.Proofs.Lex.Run

/-!
The characters of a token. At a place of a text that is not its end one token is read, and
the characters that are taken for it are its lexeme: they are of the form that the kind asks
for, and no more of what follows could be taken along. A word or a number ends where no
character goes on with it, and of two symbols that stand at the place the longer one is read.
-/

namespace Scriptlet

namespace Quoting

theorem scanQuoted_go_count {closing : Char} {cs decoded found : List Char} {count taken : Nat}
    (h : scanQuoted.go closing cs decoded count = some (found, taken)) :
    ∃ n, n ≤ cs.length ∧ taken = count + n ∧
      scanQuoted.go closing (cs.take n) decoded count = some (found, taken) := by
  fun_induction scanQuoted.go closing cs decoded count with
  | case1 => cases h
  | case2 c cs decoded count hclosing =>
      cases h
      refine ⟨1, by simp, rfl, ?_⟩
      simp [scanQuoted.go, hclosing]
  | case3 => cases h
  | case4 c decoded count hclosing hescape escaped cs ih =>
      obtain ⟨n, hn, rfl, hrun⟩ := ih h
      refine ⟨n + 2, by simpa using hn, by omega, ?_⟩
      simpa [scanQuoted.go, hclosing, hescape] using hrun
  | case5 c cs decoded count hclosing hescape ih =>
      obtain ⟨n, hn, rfl, hrun⟩ := ih h
      refine ⟨n + 1, by simpa using hn, by omega, ?_⟩
      rw [List.take_succ_cons, scanQuoted.go.eq_def]
      simpa only [if_neg hclosing, if_neg hescape] using hrun

/-- A quoted text is found in the characters it takes. -/
theorem scanQuoted_count {closing : Char} {cs found : List Char} {taken : Nat}
    (h : scanQuoted closing cs = some (found, taken)) :
    taken ≤ cs.length ∧ scanQuoted closing (cs.take taken) = some (found, taken) := by
  obtain ⟨n, hn, htaken, hrun⟩ := scanQuoted_go_count h
  rw [Nat.zero_add] at htaken
  subst htaken
  exact ⟨hn, hrun⟩

end Quoting

namespace Token

/-- The characters are a lexeme of the token, as long as it can be before what follows. -/
def Lexeme (t : Token) (cs following : List Char) : Prop :=
  match t.kind with
  | .ident | .keyword _ =>
    Text.isWord cs = true ∧ ∀ c ∈ following.head?, Text.isWordChar c = false
  | .number =>
    cs ≠ [] ∧ (∀ c ∈ cs, Text.isDigit c = true) ∧ ∀ c ∈ following.head?, Text.isDigit c = false
  | .symbol mark =>
    cs = mark.lexeme.toList ∧
      ∀ other : Symbol, other.lexeme.toList <+: cs ++ following →
        other.lexeme.length ≤ mark.lexeme.length
  | .text =>
    ∃ quote inner, cs = quote :: inner ∧ Quoting.isQuote quote = true ∧
      Quoting.scanQuoted quote inner = some (t.value.toList, inner.length)
  | .fault =>
    -- A quote that is never closed, or a character that starts no token.
    (∃ quote inner, cs = quote :: inner ∧ Quoting.isQuote quote = true ∧ following = [] ∧
      Quoting.scanQuoted quote inner = none) ∨
    ∃ c, cs = [c] ∧ Text.isWordStart c = false ∧ Text.isDigit c = false ∧
      Quoting.isQuote c = false ∧ ∀ mark : Symbol, ¬ mark.lexeme.toList <+: cs ++ following
  | .finish | .other _ => False

end Token

namespace Symbol

theorem length_lexeme (mark : Symbol) : mark.lexeme.length = 1 ∨ mark.lexeme.length = 2 := by
  rw [← String.length_toList]
  rcases lexeme_chars mark with ⟨c, hc⟩ | ⟨c, d, hcd⟩
  · exact .inl (by rw [hc]; rfl)
  · exact .inr (by rw [hcd]; rfl)

end Symbol

namespace Keyword

theorem lexeme_cons (word : Keyword) :
    ∃ c cs, word.lexeme.toList = c :: cs ∧ Text.isWordStart c = true := by
  cases word <;> exact ⟨_, _, rfl, by decide⟩

end Keyword

/-- A reserved lexeme is that of a keyword or of a symbol. -/
theorem reservedKind?_cases {lexeme : String} {kind : Kind}
    (h : reservedKind? lexeme = some kind) :
    (∃ word : Keyword, kind = .keyword word ∧ lexeme = word.lexeme) ∨
      ∃ mark : Symbol, kind = .symbol mark ∧ lexeme = mark.lexeme := by
  have hlexeme := lexeme?_of_reserved _ (mem_of_reservedKind? h)
  cases kind with
  | keyword word => exact .inl ⟨word, rfl, (Option.some.inj hlexeme).symm⟩
  | symbol mark => exact .inr ⟨mark, rfl, (Option.some.inj hlexeme).symm⟩
  | _ => cases hlexeme

namespace Lexer

variable {table : AliasTable}

/-- The reserved lexeme of a length at the start of a text. -/
def reservedOf? (n : Nat) (cs : List Char) : Option (String × Kind) :=
  let lexeme := String.ofList (cs.take n)
  if lexeme.length == n then (reservedKind? lexeme).map (lexeme, ·) else none

theorem symbol?_eq (cs : List Char) :
    symbol? cs = (reservedOf? 2 cs).or (reservedOf? 1 cs) := by
  unfold symbol?
  rw [Option.orElse_eq_orElse, Option.orElse_eq_or]
  rfl

theorem reservedOf?_eq_some_iff {n : Nat} {cs : List Char} {lexeme : String} {kind : Kind} :
    reservedOf? n cs = some (lexeme, kind) ↔
      lexeme.length = n ∧ lexeme.toList <+: cs ∧ reservedKind? lexeme = some kind := by
  constructor
  · intro h
    simp only [reservedOf?, Option.ite_none_right_eq_some, Option.map_eq_some_iff,
      beq_iff_eq] at h
    obtain ⟨hlength, kind', hkind, heq⟩ := h
    obtain ⟨rfl, rfl⟩ := Prod.mk.inj heq
    refine ⟨hlength, ?_, hkind⟩
    rw [String.toList_ofList]
    exact List.take_prefix n cs
  · rintro ⟨hlength, hstands, hkind⟩
    have htake : String.ofList (cs.take n) = lexeme := by
      rw [← hlength, ← String.length_toList, ← List.prefix_iff_eq_take.mp hstands,
        String.ofList_toList]
    simp [reservedOf?, htake, hlength, hkind]

/-- The lexeme that is read stands at the place, and no longer symbol does. -/
theorem symbol?_eq_some {cs : List Char} {lexeme : String} {kind : Kind}
    (h : symbol? cs = some (lexeme, kind)) :
    lexeme.toList <+: cs ∧ reservedKind? lexeme = some kind ∧
      ∀ mark : Symbol, mark.lexeme.toList <+: cs → mark.lexeme.length ≤ lexeme.length := by
  rw [symbol?_eq, Option.or_eq_some_iff] at h
  rcases h with htwo | ⟨hnone, hone⟩
  · obtain ⟨hlength, hstands, hkind⟩ := reservedOf?_eq_some_iff.mp htwo
    refine ⟨hstands, hkind, ?_⟩
    intro mark _
    have hmark := mark.length_lexeme
    omega
  · obtain ⟨hlength, hstands, hkind⟩ := reservedOf?_eq_some_iff.mp hone
    refine ⟨hstands, hkind, ?_⟩
    intro mark hmark
    rcases mark.length_lexeme with hshort | hlong
    · omega
    · have hfound := reservedOf?_eq_some_iff.mpr ⟨hlong, hmark, mark.reservedKind?_lexeme⟩
      rw [hnone] at hfound
      cases hfound

theorem symbol?_eq_none {cs : List Char} (h : symbol? cs = none) (mark : Symbol) :
    ¬ mark.lexeme.toList <+: cs := by
  intro hmark
  rw [symbol?_eq, Option.or_eq_none_iff] at h
  have hfound {n : Nat} (hlength : mark.lexeme.length = n) :=
    reservedOf?_eq_some_iff.mpr ⟨hlength, hmark, mark.reservedKind?_lexeme⟩
  rcases mark.length_lexeme with hshort | hlong
  · cases h.2.symm.trans (hfound hshort)
  · cases h.1.symm.trans (hfound hlong)

/-- What a place of a text gives: a token, and the number of characters that it takes. -/
structure Reads (table : AliasTable) (r : Reader) (t : Token) (n : Nat) : Prop where
  result : readToken table r = (t, r.skip n)
  pos : 0 < n
  le : n ≤ r.rest.length
  line : t.line = r.line
  column : t.column = r.column
  value : t.kind ≠ .text → t.value.toList = r.rest.take n
  lexeme : t.Lexeme (r.rest.take n) (r.rest.drop n)

variable {r : Reader} {c : Char} {cs : List Char}

/-- The run of a class ends where no more of the class follows. -/
theorem head?_drop_takeWhile (p : Char → Bool) (cs : List Char) :
    ∀ c ∈ (cs.drop (cs.takeWhile p).length).head?, p c = false := by
  induction cs with
  | nil => exact nofun
  | cons d cs ih =>
      by_cases hd : p d = true
      · rw [List.takeWhile_cons_of_pos hd]
        exact ih
      · rw [List.takeWhile_cons_of_neg hd]
        rintro _ ⟨⟩
        exact Bool.eq_false_iff.mpr hd

theorem take_takeWhile (p : Char → Bool) (cs : List Char) :
    cs.take (cs.takeWhile p).length = cs.takeWhile p :=
  (List.prefix_iff_eq_take.mp (List.takeWhile_prefix p)).symm

theorem wordToken_lexeme {following : List Char} (hword : Text.isWord cs = true)
    (hfollowing : ∀ c ∈ following.head?, Text.isWordChar c = false) (line column : Nat) :
    (wordToken table (String.ofList cs) line column).Lexeme cs following := by
  unfold wordToken
  split
  next kind hkind =>
    rcases reservedKind?_cases hkind with ⟨word, rfl, _⟩ | ⟨mark, rfl, hlexeme⟩
    · exact ⟨hword, hfollowing⟩
    · -- No symbol is a word.
      obtain ⟨c, rest, hcons, _, hchar, _⟩ := mark.lexeme_cons
      have hcs : cs = c :: rest := by rw [← hcons, ← hlexeme, String.toList_ofList]
      simp [hcs, Text.isWord, hchar] at hword
  next =>
    unfold AliasTable.token?
    cases table.get? (String.ofList cs) <;> exact ⟨hword, hfollowing⟩

theorem value_wordToken (table : AliasTable) (word : String) (line column : Nat) :
    (wordToken table word line column).value = word ∧
      (wordToken table word line column).line = line ∧
      (wordToken table word line column).column = column := by
  unfold wordToken
  split
  · exact ⟨rfl, rfl, rfl⟩
  · unfold AliasTable.token?
    cases table.get? word <;> exact ⟨rfl, rfl, rfl⟩

theorem readWord_reads (hrest : r.rest = c :: cs) (hstart : Text.isWordStart c = true) :
    Reads table r (wordToken table (String.ofList (r.rest.takeWhile Text.isWordChar)) r.line
      r.column) (r.rest.takeWhile Text.isWordChar).length := by
  have hchar := Text.isWordChar_of_isWordStart hstart
  have hword : Text.isWord (r.rest.takeWhile Text.isWordChar) = true := by
    rw [hrest, List.takeWhile_cons_of_pos hchar]
    simp [Text.isWord, hstart, hchar]
  obtain ⟨hvalue, hline, hcolumn⟩ := value_wordToken table
    (String.ofList (r.rest.takeWhile Text.isWordChar)) r.line r.column
  constructor
  · unfold readToken
    simp only [hrest, hstart, if_true]
    rw [← hrest]
    unfold readWord
    rw [Reader.takeWhile_eq]
  · rw [hrest, List.takeWhile_cons_of_pos hchar]
    exact Nat.succ_pos _
  · exact (List.takeWhile_prefix _).length_le
  · exact hline
  · exact hcolumn
  · intro _
    rw [hvalue, String.toList_ofList, take_takeWhile]
  · rw [take_takeWhile]
    exact wordToken_lexeme hword (head?_drop_takeWhile _ _) _ _

theorem readNumber_reads (hrest : r.rest = c :: cs) (hstart : Text.isWordStart c = false)
    (hdigit : Text.isDigit c = true) :
    Reads table r ⟨.number, String.ofList (r.rest.takeWhile Text.isDigit), r.line, r.column⟩
      (r.rest.takeWhile Text.isDigit).length := by
  have hcons : r.rest.takeWhile Text.isDigit = c :: cs.takeWhile Text.isDigit := by
    rw [hrest, List.takeWhile_cons_of_pos hdigit]
  constructor
  · unfold readToken
    simp only [hrest, hstart, hdigit, if_true, Bool.false_eq_true, if_false]
    rw [← hrest, Reader.takeWhile_eq]
  · rw [hcons]
    exact Nat.succ_pos _
  · exact (List.takeWhile_prefix _).length_le
  · rfl
  · rfl
  · intro _
    rw [String.toList_ofList, take_takeWhile]
  · rw [take_takeWhile]
    refine ⟨?_, ?_, head?_drop_takeWhile _ _⟩
    · rw [hcons]
      exact List.cons_ne_nil _ _
    · exact List.all_eq_true.mp List.all_takeWhile

theorem readQuoted_reads (hrest : r.rest = c :: cs) (hstart : Text.isWordStart c = false)
    (hdigit : Text.isDigit c = false) (hquote : Quoting.isQuote c = true) :
    ∃ t n, Reads table r t n := by
  have hresult {result : Token × Reader} (hread : readQuoted r = .ok result) :
      readToken table r = result := by
    unfold readToken
    simp only [hrest, hstart, hdigit, hquote, hread, if_true, Bool.false_eq_true, if_false]
  cases hscan : Quoting.scanQuoted c cs with
  | some found =>
      obtain ⟨decoded, count⟩ := found
      obtain ⟨hcount, hinner⟩ := Quoting.scanQuoted_count hscan
      have hread : readQuoted r = .ok (⟨.text, String.ofList decoded, r.line, r.column⟩,
          r.skip (count + 1)) := by
        unfold readQuoted
        simp only [hrest, hscan]
      refine ⟨_, _, hresult hread, Nat.succ_pos _, by simpa [hrest] using hcount, rfl, rfl,
        ?_, ?_⟩
      · exact fun htext => absurd rfl htext
      · rw [hrest, List.take_succ_cons]
        refine ⟨c, _, rfl, hquote, ?_⟩
        rw [hinner, String.toList_ofList, List.length_take_of_le hcount]
  | none =>
      have hread : readQuoted r = .ok (⟨.fault, String.ofList r.rest, r.line, r.column⟩,
          r.skip r.rest.length) := by
        unfold readQuoted
        simp only [hrest, hscan]
      refine ⟨_, _, hresult hread, by simp [hrest], Nat.le_refl _, rfl, rfl, ?_, ?_⟩
      · intro _
        rw [String.toList_ofList, List.take_length]
      · rw [List.take_length, List.drop_length]
        exact .inl ⟨c, cs, hrest, hquote, rfl, hscan⟩

theorem readSymbol_reads (hrest : r.rest = c :: cs) (hstart : Text.isWordStart c = false)
    (hdigit : Text.isDigit c = false) (hquote : Quoting.isQuote c = false) :
    ∃ t n, Reads table r t n := by
  have hresult : readToken table r =
      (readSymbol? r).getD (⟨.fault, c.toString, r.line, r.column⟩, r.step) := by
    unfold readToken
    simp only [hrest, hstart, hdigit, hquote, Bool.false_eq_true, if_false]
  unfold readSymbol? at hresult
  cases hsymbol : symbol? r.rest with
  | some found =>
      obtain ⟨lexeme, kind⟩ := found
      obtain ⟨hstands, hkind, hlongest⟩ := symbol?_eq_some hsymbol
      rw [hsymbol] at hresult
      have hlength := hstands.length_le
      have htake := (List.prefix_iff_eq_take.mp hstands).symm
      rw [String.length_toList] at hlength htake
      refine ⟨_, _, hresult, (symbol?_length hsymbol).1, hlength, rfl, rfl, ?_, ?_⟩
      · exact fun _ => htake.symm
      · rcases reservedKind?_cases hkind with ⟨word, _, rfl⟩ | ⟨mark, rfl, rfl⟩
        · -- A keyword would have been read as a word.
          obtain ⟨d, ds, hcons, hd⟩ := word.lexeme_cons
          rw [hcons, hrest, List.cons_prefix_cons] at hstands
          rw [hstands.1, hstart] at hd
          cases hd
        · refine ⟨htake, ?_⟩
          rw [List.take_append_drop]
          exact hlongest
  | none =>
      rw [hsymbol] at hresult
      refine ⟨_, 1, hresult, Nat.one_pos, by simp [hrest], rfl, rfl, ?_, ?_⟩
      · intro _
        simp [hrest]
      · refine .inr ⟨c, ?_, hstart, hdigit, hquote, ?_⟩
        · rw [hrest]
          rfl
        · rw [List.take_append_drop]
          exact symbol?_eq_none hsymbol

/-- At a place that is not the end one token is read, with its lexeme. -/
theorem exists_reads (table : AliasTable) (h : r.rest ≠ []) : ∃ t n, Reads table r t n := by
  cases hrest : r.rest with
  | nil => exact absurd hrest h
  | cons c cs =>
      cases hstart : Text.isWordStart c with
      | true => exact ⟨_, _, readWord_reads hrest hstart⟩
      | false =>
          cases hdigit : Text.isDigit c with
          | true => exact ⟨_, _, readNumber_reads hrest hstart hdigit⟩
          | false =>
              cases hquote : Quoting.isQuote c with
              | true => exact readQuoted_reads hrest hstart hdigit hquote
              | false => exact readSymbol_reads hrest hstart hdigit hquote

end Lexer

end Scriptlet
