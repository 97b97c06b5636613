import Scriptlet.Proofs.Lex.Scan

/-!
Runs of the lexer over a text. Every step takes at least one character or finds
the end, so the tokens of a text are those of the one run from its beginning to
its end. What a token says about the text it was read from is its legibility: the
value of an identifier is a word that the table leaves alone, a number consists of
digits, and a symbol is written the way the language writes it.
-/

namespace Scriptlet

theorem mem_of_reservedKind? {lexeme : String} {kind : Kind}
    (h : reservedKind? lexeme = some kind) : (lexeme, kind) ∈ reserved := by
  obtain ⟨before, after, heq, _⟩ := List.lookup_eq_some_iff.mp h
  rw [heq]
  simp

/-- How the language writes a kind, if it always writes it the same way. -/
def Kind.lexeme? : Kind → Option String
  | .keyword word => some word.lexeme
  | .symbol mark => some mark.lexeme
  | _ => none

/-- The table of reserved lexemes gives no kind two of them. -/
theorem lexeme?_of_reserved : ∀ entry ∈ reserved, entry.2.lexeme? = some entry.1 := by
  decide

namespace Token

/-- The value of the token is a text that the lexer reads as such a token. -/
def Legible (table : AliasTable) (t : Token) : Prop :=
  match t.kind with
  | .ident => Text.isWord t.value.toList = true ∧
      (∀ c ∈ t.value.toList.head?, Lexer.IsInk c) ∧
      reservedKind? t.value = none ∧ table.get? t.value = none
  | .number => ∀ c ∈ t.value.toList, Text.isDigit c = true
  | .symbol mark => t.value = mark.lexeme
  | _ => True

theorem Legible.ident {table : AliasTable} {t : Token} (h : t.Legible table)
    (hkind : t.kind = .ident) : Text.isWord t.value.toList = true ∧
      (∀ c ∈ t.value.toList.head?, Lexer.IsInk c) ∧
      reservedKind? t.value = none ∧ table.get? t.value = none := by
  unfold Legible at h
  rwa [hkind] at h

theorem Legible.number {table : AliasTable} {t : Token} (h : t.Legible table)
    (hkind : t.kind = .number) : ∀ c ∈ t.value.toList, Text.isDigit c = true := by
  unfold Legible at h
  rwa [hkind] at h

theorem Legible.symbol {table : AliasTable} {t : Token} {mark : Symbol}
    (h : t.Legible table) (hkind : t.kind = .symbol mark) : t.value = mark.lexeme := by
  unfold Legible at h
  rwa [hkind] at h

/-- A word that no alias takes is read the same without aliases. -/
theorem Legible.empty {table : AliasTable} {t : Token} (h : t.Legible table) :
    t.Legible .empty := by
  unfold Legible at *
  split at h
  next => exact ⟨h.1, h.2.1, h.2.2.1, rfl⟩
  next => exact h
  next => exact h
  next => trivial

theorem legible_of_reservedKind? {table : AliasTable} {lexeme : String} {kind : Kind}
    (h : reservedKind? lexeme = some kind) (line column : Nat) :
    Legible table ⟨kind, lexeme, line, column⟩ := by
  have hlexeme := lexeme?_of_reserved _ (mem_of_reservedKind? h)
  cases kind with
  | symbol mark => exact (Option.some.inj hlexeme).symm
  | keyword word => trivial
  | _ => cases hlexeme

end Token

namespace Lexer

variable {table : AliasTable}

theorem symbol?_length {cs : List Char} {lexeme : String} {kind : Kind}
    (h : symbol? cs = some (lexeme, kind)) :
    0 < lexeme.length ∧ reservedKind? lexeme = some kind := by
  have hof {n : Nat} (hn : 0 < n)
      (hlexeme : (if (String.ofList (cs.take n)).length == n then
        (reservedKind? (String.ofList (cs.take n))).map (String.ofList (cs.take n), ·)
        else none) = some (lexeme, kind)) :
      0 < lexeme.length ∧ reservedKind? lexeme = some kind := by
    split at hlexeme
    next hlength =>
      obtain ⟨kind', hkind, heq⟩ := Option.map_eq_some_iff.mp hlexeme
      obtain ⟨rfl, rfl⟩ := Prod.mk.inj heq
      have heqn : (String.ofList (cs.take n)).length = n := by simpa using hlength
      exact ⟨by omega, hkind⟩
    next => cases hlexeme
  unfold symbol? at h
  rw [Option.orElse_eq_orElse, Option.orElse_eq_or, Option.or_eq_some_iff] at h
  rcases h with htwo | ⟨_, hone⟩
  · exact hof (by omega) htwo
  · exact hof (by omega) hone

/-- A token that is read takes at least one character. -/
theorem readToken_skip (table : AliasTable) {r : Reader} (h : r.rest ≠ []) :
    ∃ n, 0 < n ∧ (readToken table r).2 = r.skip n := by
  have hrun {p : Char → Bool} {c : Char} {cs : List Char} (hrest : r.rest = c :: cs)
      (hc : p c = true) : 0 < (r.rest.takeWhile p).length := by
    rw [hrest, List.takeWhile_cons_of_pos hc]
    simp
  unfold readToken
  split
  next hnil => exact absurd hnil h
  next c cs hrest =>
    split
    next hstart => exact ⟨_, hrun hrest (Text.isWordChar_of_isWordStart hstart), rfl⟩
    next =>
      split
      next hdigit => exact ⟨_, hrun hrest hdigit, rfl⟩
      next =>
        split
        next =>
          unfold readQuoted
          simp only [hrest]
          split
          next hread =>
            split at hread
            next => cases hread; exact ⟨_, by omega, rfl⟩
            next => cases hread; exact ⟨_, by simp, rfl⟩
          next hread =>
            split at hread <;> cases hread
        next =>
          cases hsymbol : symbol? r.rest with
          | none =>
              unfold readSymbol?
              rw [hsymbol]
              exact ⟨1, by omega, rfl⟩
          | some found =>
              unfold readSymbol?
              rw [hsymbol]
              exact ⟨_, (symbol?_length hsymbol).1, rfl⟩

theorem next_of_end {r : Reader} (h : (skipLayout r).rest = []) :
    next table r = (.finish (skipLayout r).line (skipLayout r).column, skipLayout r) := by
  unfold next readToken
  rw [h]

/-- Every token but the finishing one takes a character, which is what bounds the loops. -/
theorem next_length_lt {r after : Reader} {t : Token} (h : next table r = (t, after))
    (hkind : t.kind ≠ .finish) : after.rest.length < r.rest.length := by
  have hlayout : (skipLayout r).rest.length ≤ r.rest.length := by
    unfold skipLayout
    rw [Reader.skip_rest, List.length_drop]
    omega
  have hrest : (skipLayout r).rest ≠ [] := by
    intro hnil
    rw [next_of_end hnil] at h
    obtain ⟨rfl, _⟩ := Prod.mk.inj h
    exact hkind rfl
  obtain ⟨n, hn, hskip⟩ := readToken_skip table hrest
  have hpos : 0 < (skipLayout r).rest.length := List.length_pos_iff.mpr hrest
  have hafter : after = (skipLayout r).skip n := by
    rw [← hskip]
    exact (congrArg Prod.snd h).symm
  rw [hafter, Reader.skip_rest, List.length_drop]
  omega

theorem wordToken_legible {word : String} (hword : Text.isWord word.toList = true)
    (hink : ∀ c ∈ word.toList.head?, IsInk c) (line column : Nat) :
    (wordToken table word line column).Legible table := by
  unfold wordToken
  split
  next hreserved => exact Token.legible_of_reservedKind? hreserved line column
  next hreserved =>
    unfold AliasTable.token?
    cases halias : table.get? word with
    | some keyword => trivial
    | none => exact ⟨hword, hink, hreserved, halias⟩

theorem readToken_legible {r : Reader} (hink : ∀ c ∈ r.rest.head?, IsInk c) :
    (readToken table r).1.Legible table := by
  unfold readToken
  split
  next => trivial
  next c cs hrest =>
    split
    next hstart =>
      have hword : Text.isWord (r.rest.takeWhile Text.isWordChar) = true := by
        have hchar := Text.isWordChar_of_isWordStart hstart
        rw [hrest, List.takeWhile_cons_of_pos hchar]
        simp [Text.isWord, hstart, hchar]
      unfold readWord
      rw [Reader.takeWhile_eq]
      apply wordToken_legible
      · rwa [String.toList_ofList]
      · intro d hd
        rw [String.toList_ofList, List.head?_takeWhile, Option.mem_def,
          Option.filter_eq_some_iff] at hd
        exact hink d hd.1
    next =>
      split
      next hdigit =>
        rw [Reader.takeWhile_eq]
        intro d hd
        rw [String.toList_ofList] at hd
        exact List.all_eq_true.mp List.all_takeWhile d hd
      next =>
        split
        next =>
          unfold readQuoted
          simp only [hrest]
          split
          next hread =>
            split at hread <;> cases hread <;> trivial
          next => trivial
        next =>
          cases hsymbol : symbol? r.rest with
          | none =>
              unfold readSymbol?
              rw [hsymbol]
              trivial
          | some found =>
              unfold readSymbol?
              rw [hsymbol]
              exact Token.legible_of_reservedKind? (symbol?_length hsymbol).2 _ _

/-- Whatever the lexer gives is what it would give again for the token's value. -/
theorem next_legible (r : Reader) : (next table r).1.Legible table :=
  readToken_legible (skipLayout_ink r)

/-- A run of the lexer over blanks and tokens, none of which finishes. -/
inductive Scans (table : AliasTable) : Reader → List Token → Reader → Prop where
  | done (r : Reader) : Scans table r [] r
  | blank {r r₁ : Reader} {c : Char} {cs : List Char} {ts : List Token}
      (hchars : r.rest = c :: cs) (hblank : Text.isBlank c = true)
      (hrest : Scans table r.step ts r₁) : Scans table r ts r₁
  | token {r r₁ r₂ : Reader} {t : Token} {ts : List Token}
      (hnext : next table r = (t, r₁)) (hkind : t.kind ≠ .finish)
      (hrest : Scans table r₁ ts r₂) : Scans table r (t :: ts) r₂

namespace Scans

variable {r r₁ r₂ : Reader} {ts us : List Token}

theorem append (hts : Scans table r ts r₁) (hus : Scans table r₁ us r₂) :
    Scans table r (ts ++ us) r₂ := by
  induction hts with
  | done r => exact hus
  | blank hchars hblank _ ih => exact .blank hchars hblank (ih hus)
  | token hnext hkind _ ih => exact .token hnext hkind (ih hus)

/-- There are no more tokens than characters. -/
theorem length_le (h : Scans table r ts r₁) :
    ts.length + r₁.rest.length ≤ r.rest.length := by
  induction h with
  | done r => simp
  | blank hchars _ _ ih =>
      rw [Reader.step_rest, hchars, List.tail_cons] at ih
      rw [hchars, List.length_cons]
      omega
  | token hnext hkind _ ih =>
      have hlt := next_length_lt hnext hkind
      rw [List.length_cons]
      omega

theorem legible (h : Scans table r ts r₁) :
    ∀ t ∈ ts, t.Legible table ∧ t.kind ≠ .finish := by
  induction h with
  | done r => simp
  | blank _ _ _ ih => exact ih
  | @token r r₁ r₂ t ts hnext hkind _ ih =>
      intro u hu
      rcases List.mem_cons.mp hu with rfl | hmem
      · have hlegible : (next table r).1.Legible table := next_legible r
        rw [hnext] at hlegible
        exact ⟨hlegible, hkind⟩
      · exact ih u hmem

/-- A run to the end starts with the next token, unless that is the end. -/
theorem run_of_next {t : Token} (h : Scans table r ts r₂)
    (hend : (next table r₂).1.kind = .finish) (hnext : next table r = (t, r₁)) :
    (t.kind = .finish ∧ ts = []) ∨
      t.kind ≠ .finish ∧ ∃ us, ts = t :: us ∧ Scans table r₁ us r₂ := by
  induction h with
  | done r =>
      rw [hnext] at hend
      exact .inl ⟨hend, rfl⟩
  | blank hchars hblank _ ih => exact ih hend (by rw [← next_of_blank hchars hblank, hnext])
  | token hnext' hkind hrest _ =>
      rw [hnext] at hnext'
      obtain ⟨rfl, rfl⟩ := Prod.mk.inj hnext'
      exact .inr ⟨hkind, _, rfl, hrest⟩

/-- Two runs from one place to an end read the same tokens. -/
theorem unique (hts : Scans table r ts r₁) (hend₁ : (next table r₁).1.kind = .finish)
    (hus : Scans table r us r₂) (hend₂ : (next table r₂).1.kind = .finish) : ts = us := by
  induction hts generalizing us r₂ with
  | done r =>
      rcases hus.run_of_next hend₂ rfl with ⟨_, hnil⟩ | ⟨hkind, _⟩
      · exact hnil.symm
      · exact absurd hend₁ hkind
  | @blank r r₁ c cs ts hchars hblank _ ih =>
      have hnext : next table r = next table r.step := next_of_blank hchars hblank
      rcases hus.run_of_next hend₂ rfl with ⟨hkind, rfl⟩ | ⟨hkind, us, rfl, hrest⟩
      · exact ih hend₁ (.done _) (by rwa [← hnext])
      · exact ih hend₁ (.token hnext.symm hkind hrest) hend₂
  | token hnext hkind _ ih =>
      rcases hus.run_of_next hend₂ hnext with ⟨hfinish, _⟩ | ⟨_, us, rfl, hrest⟩
      · exact absurd hfinish hkind
      · rw [ih hend₁ hrest hend₂]

end Scans

/-- The loop that reads tokens is one run to the end. -/
theorem tokens_go (table : AliasTable) (fuel : Nat) (r : Reader) (read : List Token)
    (hfuel : r.rest.length < fuel) :
    ∃ ts r₁, Scans table r ts r₁ ∧ (next table r₁).1.kind = .finish ∧
      tokens.go table fuel r read = (read.reverse ++ ts, next table r₁) := by
  induction fuel generalizing r read with
  | zero => omega
  | succ fuel ih =>
      unfold tokens.go
      cases hnext : next table r with
      | mk t after =>
          by_cases hkind : t.kind = .finish
          · exact ⟨[], r, .done r, by rwa [hnext], by simp [hkind, hnext]⟩
          · have hlt := next_length_lt hnext hkind
            obtain ⟨ts, r₁, hscans, hend, hgo⟩ := ih after (t :: read) (by omega)
            exact ⟨t :: ts, r₁, .token hnext hkind hscans, hend, by simp [hkind, hgo]⟩

/-- The tokens of a text are a run of the lexer from its beginning to the finishing token. -/
theorem ofString_scans (table : AliasTable) (text : String) :
    ∃ r, Scans table (.ofString text) (ofString table text).1 r ∧
      (next table r).1.kind = .finish := by
  obtain ⟨ts, r, hscans, hend, hgo⟩ := tokens_go table _ (.ofString text) []
    (Nat.lt_succ_self _)
  have htokens : (ofString table text).1 = ts := by
    unfold ofString tokens
    rw [hgo]
    rfl
  rw [htokens]
  exact ⟨r, hscans, hend⟩

theorem ofString_eq_of_scans {text : String} {ts : List Token} {r : Reader}
    (h : Scans table (.ofString text) ts r) (hend : r.rest = []) :
    (ofString table text).1 = ts := by
  obtain ⟨r', hscans, hend'⟩ := ofString_scans table text
  apply hscans.unique hend' h
  have hlayout : (skipLayout r).rest = [] := by
    unfold skipLayout
    rw [Reader.skip_rest, hend, List.drop_nil]
  rw [next_of_end hlayout]
  rfl

end Lexer

end Scriptlet
