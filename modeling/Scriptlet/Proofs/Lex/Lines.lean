import Scriptlet.Proofs.Lex.Checked

/-!
Lexing line by line. Two readers run in step while one of them has more text behind what both
have before them, on lines further down: they read the same tokens, as no token goes on over a
line break but a quoted text, which must be closed. Where the first reader comes to its end, the
second skips the line break and stands at the start of a line. So a text is lexed like the
texts before and behind one of its line breaks.
-/

namespace Scriptlet

/-- The token that many lines further down. -/
def Token.down (lines : Nat) (t : Token) : Token :=
  { t with line := t.line + lines }

/-- A fault that starts with a quote, which is one that is never closed. -/
def Token.Unclosed (t : Token) : Prop :=
  t.kind = .fault ∧ t.value.toList.head?.any Quoting.isQuote = true

instance (t : Token) : Decidable t.Unclosed :=
  inferInstanceAs (Decidable (_ ∧ _))

/-- A text that is empty or starts with a newline. -/
def Breaks (cs : List Char) : Prop :=
  ∀ c ∈ cs.head?, c = '\n'

namespace Reader

/-- Behind the characters of the first reader the second has more, and it is that many lines
further down. -/
structure Ahead (lines : Nat) (more : List Char) (r r' : Reader) : Prop where
  rest : r'.rest = r.rest ++ more
  line : r'.line = r.line + lines
  column : r'.column = r.column

variable {lines : Nat} {more : List Char} {r r' : Reader}

/-- Readers in step stay so over a character, whether it starts a line or not. -/
theorem Ahead.step (h : Ahead lines more r r') (hrest : r.rest ≠ []) :
    Ahead lines more r.step r'.step := by
  obtain ⟨c, cs, hcons⟩ := List.exists_cons_of_ne_nil hrest
  have hcons' : r'.rest = c :: (cs ++ more) := by rw [h.rest, hcons, List.cons_append]
  have hline := h.line
  have hcolumn := h.column
  unfold Reader.step
  simp only [hcons, hcons']
  split
  · exact ⟨rfl, by simp only; omega, rfl⟩
  · exact ⟨rfl, hline, by simp only; omega⟩

theorem Ahead.skip {n : Nat} (h : Ahead lines more r r') (hn : n ≤ r.rest.length) :
    Ahead lines more (r.skip n) (r'.skip n) := by
  induction n generalizing r r' with
  | zero => exact h
  | succ n ih =>
      have hrest : r.rest ≠ [] := by
        intro hnil
        simp [hnil] at hn
      apply ih (h.step hrest)
      rw [step_rest, List.length_tail]
      omega

theorem skip_add (r : Reader) (m n : Nat) : r.skip (m + n) = (r.skip m).skip n := by
  induction m generalizing r with
  | zero => rw [Nat.zero_add, Reader.skip]
  | succ m ih => rw [Nat.succ_add, Reader.skip, Reader.skip, ih]

/-- The line on which a reader comes to the end of its text. -/
def lastLine (r : Reader) : Nat :=
  r.line + r.rest.count '\n'

theorem lastLine_step (r : Reader) : r.step.lastLine = r.lastLine := by
  unfold lastLine Reader.step
  split
  · rfl
  next c cs hrest =>
    split
    next hnewline =>
      obtain rfl : c = '\n' := by simpa using hnewline
      simp only [hrest, List.count_cons_self]
      omega
    next hother =>
      have hne : c ≠ '\n' := by simpa using hother
      simp only [hrest, List.count_cons_of_ne hne]

/-- Reading moves the lines from ahead to behind and loses none. -/
theorem lastLine_skip (r : Reader) (n : Nat) : (r.skip n).lastLine = r.lastLine := by
  induction n generalizing r with
  | zero => rfl
  | succ n ih => rw [Reader.skip, ih, lastLine_step]

/-- Behind a newline a line begins. -/
theorem skip_newline {cs following : List Char} (h : r.rest = cs ++ '\n' :: following) :
    (r.skip (cs.length + 1)).rest = following ∧
      (r.skip (cs.length + 1)).line = r.line + cs.count '\n' + 1 ∧
      (r.skip (cs.length + 1)).column = 1 := by
  induction cs generalizing r with
  | nil =>
      simp only [List.nil_append] at h
      simp [Reader.skip, Reader.step, h]
  | cons c cs ih =>
      have hstep : r.step.rest = cs ++ '\n' :: following := by
        rw [step_rest, h]
        rfl
      have hlast := lastLine_step r
      obtain ⟨hrest, hline, hcolumn⟩ := ih hstep
      refine ⟨hrest, ?_, hcolumn⟩
      rw [List.length_cons, Reader.skip, hline]
      unfold lastLine at hlast
      rw [hstep, h] at hlast
      simp only [List.cons_append, List.count_cons, List.count_append] at hlast ⊢
      omega

end Reader

namespace Breaks

variable {more : List Char}

/-- A run of a class without the newline ends at a line break. -/
theorem takeWhile_append {p : Char → Bool} (h : Breaks more) (hp : p '\n' = false)
    (cs : List Char) : (cs ++ more).takeWhile p = cs.takeWhile p := by
  have hstop : more.takeWhile p = [] := by
    cases more with
    | nil => rfl
    | cons c more =>
        obtain rfl : c = '\n' := h c rfl
        exact List.takeWhile_cons_of_neg (by simp [hp])
  induction cs with
  | nil => exact hstop
  | cons c cs ih => simp only [List.cons_append, List.takeWhile_cons, ih]

/-- No symbol goes on over a line break. -/
theorem symbol?_append (h : Breaks more) {cs : List Char} (hcs : cs ≠ []) :
    Lexer.symbol? (cs ++ more) = Lexer.symbol? cs := by
  have hlong {n : Nat} (hn : n ≤ cs.length) :
      Lexer.reservedOf? n (cs ++ more) = Lexer.reservedOf? n cs := by
    unfold Lexer.reservedOf?
    rw [List.take_append_of_le_length hn]
  have hone : 1 ≤ cs.length := List.length_pos_iff.mpr hcs
  have htwo : Lexer.reservedOf? 2 (cs ++ more) = Lexer.reservedOf? 2 cs := by
    rcases Nat.lt_or_ge 1 cs.length with hlt | hle
    · exact hlong hlt
    · obtain ⟨c, rfl⟩ := List.length_eq_one_iff.mp (Nat.le_antisymm hle hone)
      cases more with
      | nil => rfl
      | cons d more =>
          obtain rfl : d = '\n' := h d rfl
          have hnone : reservedKind? (String.ofList [c, '\n']) = none := by
            apply Lexer.reservedKind?_double
            simp [Lexer.doubles]
          simp only [Lexer.reservedOf?, List.cons_append, List.nil_append, List.take, hnone,
            Option.map_none, ite_self, String.length_ofList, List.length_cons, List.length_nil]
          rfl
  rw [Lexer.symbol?_eq, Lexer.symbol?_eq, htwo, hlong hone]

end Breaks

namespace Quoting

theorem scanQuoted_go_append {closing : Char} {cs decoded found : List Char}
    {count taken : Nat} (h : scanQuoted.go closing cs decoded count = some (found, taken))
    (more : List Char) :
    scanQuoted.go closing (cs ++ more) decoded count = some (found, taken) := by
  fun_induction scanQuoted.go closing cs decoded count with
  | case1 => cases h
  | case2 c cs decoded count hclosing =>
      rw [← h, List.cons_append, scanQuoted.go.eq_def]
      simp only [if_pos hclosing]
  | case3 => cases h
  | case4 c decoded count hclosing hescape escaped cs ih =>
      rw [← ih h]
      simp [scanQuoted.go, hclosing, hescape]
  | case5 c cs decoded count hclosing hescape ih =>
      rw [← ih h, List.cons_append, scanQuoted.go.eq_def]
      simp only [if_neg hclosing, if_neg hescape]

/-- A quoted text that is closed is read the same whatever follows. -/
theorem scanQuoted_append {closing : Char} {cs found : List Char} {taken : Nat}
    (h : scanQuoted closing cs = some (found, taken)) (more : List Char) :
    scanQuoted closing (cs ++ more) = some (found, taken) :=
  scanQuoted_go_append h more

end Quoting

namespace Lexer

variable {table : AliasTable} {lines : Nat} {more : List Char} {r r' : Reader}

theorem wordToken_down (word : String) (line column : Nat) :
    wordToken table word (line + lines) column =
      (wordToken table word line column).down lines := by
  unfold wordToken
  split
  · rfl
  · unfold AliasTable.token?
    cases table.get? word <;> rfl

/-- Both readers read one token and stay in step. -/
def InStep (table : AliasTable) (lines : Nat) (more : List Char) (r r' : Reader) : Prop :=
  (readToken table r').1 = (readToken table r).1.down lines ∧
    Reader.Ahead lines more (readToken table r).2 (readToken table r').2

section Classes

variable {c : Char} {cs : List Char} (h : Reader.Ahead lines more r r')
  (hbreaks : Breaks more) (hrest : r.rest = c :: cs)
include h hbreaks hrest

theorem readWord_inStep (hstart : Text.isWordStart c = true) : InStep table lines more r r' := by
  have hrest' : r'.rest = c :: (cs ++ more) := by rw [h.rest, hrest, List.cons_append]
  have hrun : r'.rest.takeWhile Text.isWordChar = r.rest.takeWhile Text.isWordChar := by
    rw [h.rest, hbreaks.takeWhile_append (by decide)]
  unfold InStep
  rw [(readWord_reads hrest hstart).result, (readWord_reads hrest' hstart).result, hrun, h.line,
    h.column]
  exact ⟨wordToken_down _ _ _, h.skip (List.takeWhile_prefix _).length_le⟩

theorem readNumber_inStep (hstart : Text.isWordStart c = false) (hdigit : Text.isDigit c = true) :
    InStep table lines more r r' := by
  have hrest' : r'.rest = c :: (cs ++ more) := by rw [h.rest, hrest, List.cons_append]
  have hrun : r'.rest.takeWhile Text.isDigit = r.rest.takeWhile Text.isDigit := by
    rw [h.rest, hbreaks.takeWhile_append (by decide)]
  unfold InStep
  rw [(readNumber_reads hrest hstart hdigit).result,
    (readNumber_reads hrest' hstart hdigit).result, hrun, h.line, h.column]
  exact ⟨rfl, h.skip (List.takeWhile_prefix _).length_le⟩

omit hbreaks in
theorem readQuoted_inStep (hstart : Text.isWordStart c = false) (hdigit : Text.isDigit c = false)
    (hquote : Quoting.isQuote c = true)
    (hclosed : more = [] ∨ ¬ (readToken table r).1.Unclosed) :
    InStep table lines more r r' := by
  have hrest' : r'.rest = c :: (cs ++ more) := by rw [h.rest, hrest, List.cons_append]
  have hread (s : Reader) {ds : List Char} (hs : s.rest = c :: ds) : readToken table s =
      (Quoting.scanQuoted c ds).elim
        (⟨.fault, String.ofList s.rest, s.line, s.column⟩, s.skip s.rest.length)
        fun found => (⟨.text, String.ofList found.1, s.line, s.column⟩, s.skip (found.2 + 1)) := by
    unfold readToken readQuoted
    simp only [hs, hstart, hdigit, hquote, Bool.false_eq_true, if_false, if_true]
    cases Quoting.scanQuoted c ds <;> rfl
  unfold InStep
  cases hscan : Quoting.scanQuoted c cs with
  | some found =>
      obtain ⟨decoded, count⟩ := found
      have hcount := (Quoting.scanQuoted_count hscan).1
      rw [hread r hrest, hread r' hrest', hscan, Quoting.scanQuoted_append hscan]
      simp only [h.line, h.column]
      exact ⟨rfl, h.skip (by simpa [hrest] using hcount)⟩
  | none =>
      -- The fault takes all the rest, so it must be the rest for both readers.
      rw [hread r hrest, hscan] at hclosed ⊢
      have hunclosed : Token.Unclosed ⟨.fault, String.ofList r.rest, r.line, r.column⟩ := by
        refine ⟨rfl, ?_⟩
        rw [String.toList_ofList, hrest]
        exact hquote
      obtain rfl : more = [] := hclosed.resolve_right fun hnot => hnot hunclosed
      have hsame : r'.rest = r.rest := by rw [h.rest, List.append_nil]
      rw [hread r' hrest', List.append_nil, hscan]
      simp only [hsame, h.line, h.column]
      exact ⟨rfl, h.skip (Nat.le_refl _)⟩

theorem readSymbol_inStep (hstart : Text.isWordStart c = false) (hdigit : Text.isDigit c = false)
    (hquote : Quoting.isQuote c = false) : InStep table lines more r r' := by
  have hrest' : r'.rest = c :: (cs ++ more) := by rw [h.rest, hrest, List.cons_append]
  have hne : r.rest ≠ [] := by simp [hrest]
  have hread (s : Reader) {ds : List Char} (hs : s.rest = c :: ds) : readToken table s =
      (symbol? s.rest).elim (⟨.fault, c.toString, s.line, s.column⟩, s.step)
        fun found => (⟨found.2, found.1, s.line, s.column⟩, s.skip found.1.length) := by
    unfold readToken readSymbol?
    simp only [hs, hstart, hdigit, hquote, Bool.false_eq_true, if_false]
    cases symbol? (c :: ds) <;> rfl
  have hsame : symbol? r'.rest = symbol? r.rest := by rw [h.rest, hbreaks.symbol?_append hne]
  unfold InStep
  rw [hread r hrest, hread r' hrest', hsame]
  cases hsymbol : symbol? r.rest with
  | some found =>
      obtain ⟨lexeme, kind⟩ := found
      have hlength := (symbol?_eq_some hsymbol).1.length_le
      rw [String.length_toList] at hlength
      simp only [h.line, h.column]
      exact ⟨rfl, h.skip hlength⟩
  | none =>
      simp only [h.line, h.column]
      exact ⟨rfl, h.step hne⟩

end Classes

/-- Where the first reader is not at its end the two stay in step, unless it finds a quote that is
never closed. -/
theorem readToken_inStep (h : Reader.Ahead lines more r r') (hbreaks : Breaks more)
    (hne : r.rest ≠ []) (hclosed : more = [] ∨ ¬ (readToken table r).1.Unclosed) :
    InStep table lines more r r' := by
  obtain ⟨c, cs, hrest⟩ := List.exists_cons_of_ne_nil hne
  cases hstart : Text.isWordStart c with
  | true => exact readWord_inStep h hbreaks hrest hstart
  | false =>
      cases hdigit : Text.isDigit c with
      | true => exact readNumber_inStep h hbreaks hrest hstart hdigit
      | false =>
          cases hquote : Quoting.isQuote c with
          | true => exact readQuoted_inStep h hrest hstart hdigit hquote hclosed
          | false => exact readSymbol_inStep h hbreaks hrest hstart hdigit hquote

theorem layoutLength_go_append (comment : Bool) {cs : List Char}
    (h : layoutLength.go comment cs 0 < cs.length) (more : List Char) :
    layoutLength.go comment (cs ++ more) 0 = layoutLength.go comment cs 0 := by
  induction cs generalizing comment with
  | nil => exact absurd h (Nat.not_lt_zero _)
  | cons c cs ih =>
      rw [List.length_cons] at h
      cases comment with
      | true =>
          simp only [List.cons_append, layoutLength.go] at h ⊢
          rw [layoutLength_go] at h ⊢
          rw [layoutLength_go _ cs, ih _ (by omega)]
      | false =>
          simp only [List.cons_append, layoutLength.go] at h ⊢
          split
          next hblank =>
            rw [if_pos hblank, layoutLength_go] at h
            rw [layoutLength_go, layoutLength_go _ cs, ih _ (by omega)]
          next hblank =>
            split
            next hcomment =>
              rw [if_neg hblank, if_pos hcomment, layoutLength_go] at h
              rw [layoutLength_go, layoutLength_go _ cs, ih _ (by omega)]
            next => rfl

/-- Layout that goes on to a line break goes on behind it, also if it ends in a comment. -/
theorem layoutLength_go_newline (comment : Bool) {cs : List Char}
    (h : layoutLength.go comment cs 0 = cs.length) (following : List Char) :
    layoutLength.go comment (cs ++ '\n' :: following) 0 =
      cs.length + 1 + layoutLength following := by
  induction cs generalizing comment with
  | nil =>
      cases comment <;>
        exact (layoutLength_go false following 1).trans (Nat.add_comm _ _)
  | cons c cs ih =>
      rw [List.length_cons] at h ⊢
      cases comment with
      | true =>
          simp only [List.cons_append, layoutLength.go] at h ⊢
          rw [layoutLength_go] at h ⊢
          rw [ih _ (by omega)]
          omega
      | false =>
          simp only [List.cons_append, layoutLength.go] at h ⊢
          split
          next hblank =>
            rw [if_pos hblank, layoutLength_go] at h
            rw [layoutLength_go, ih _ (by omega)]
            omega
          next hblank =>
            rw [if_neg hblank] at h
            split
            next hcomment =>
              rw [if_pos hcomment, layoutLength_go] at h
              rw [layoutLength_go, ih _ (by omega)]
              omega
            next hcomment =>
              rw [if_neg hcomment] at h
              cases h

theorem next_inStep (h : Reader.Ahead lines more r r') (hbreaks : Breaks more)
    (hkind : (next table r).1.kind ≠ .finish)
    (hclosed : more = [] ∨ ¬ (next table r).1.Unclosed) :
    (next table r').1 = (next table r).1.down lines ∧
      Reader.Ahead lines more (next table r).2 (next table r').2 := by
  have hne : (skipLayout r).rest ≠ [] := by
    intro hnil
    rw [next_of_end hnil] at hkind
    exact hkind rfl
  have hlt : layoutLength r.rest < r.rest.length := by
    unfold skipLayout at hne
    rwa [Reader.skip_rest, ← List.length_pos_iff, List.length_drop, Nat.sub_pos_iff_lt] at hne
  have hlayout : layoutLength r'.rest = layoutLength r.rest := by
    rw [h.rest]
    exact layoutLength_go_append false hlt more
  have hskip : Reader.Ahead lines more (skipLayout r) (skipLayout r') := by
    unfold skipLayout
    rw [hlayout]
    exact h.skip (Nat.le_of_lt hlt)
  exact readToken_inStep hskip hbreaks hne hclosed

/-- Only at the end of a text is there nothing but layout left. -/
theorem skipLayout_of_finish (h : (next table r).1.kind = .finish) :
    layoutLength r.rest = r.rest.length ∧ (skipLayout r).rest = [] := by
  have hnil : (skipLayout r).rest = [] := by
    apply Classical.byContradiction
    intro hne
    obtain ⟨t, n, hreads⟩ := exists_reads table hne
    unfold next at h
    rw [hreads.result] at h
    have hlexeme := hreads.lexeme
    unfold Token.Lexeme at hlexeme
    rwa [h] at hlexeme
  have hle : layoutLength r.rest ≤ r.rest.length := layoutLength_go_le false r.rest
  have hdrop := hnil
  unfold skipLayout at hdrop
  rw [Reader.skip_rest, List.drop_eq_nil_iff] at hdrop
  exact ⟨Nat.le_antisymm hle hdrop, hnil⟩

/-- At its end the first reader finishes, and so does the second if it has nothing more. -/
theorem next_finish_down (h : Reader.Ahead lines [] r r')
    (hkind : (next table r).1.kind = .finish) :
    (next table r').1 = (next table r).1.down lines := by
  obtain ⟨hlength, hnil⟩ := skipLayout_of_finish hkind
  have hlayout : layoutLength r'.rest = layoutLength r.rest := by rw [h.rest, List.append_nil]
  have hskip : Reader.Ahead lines [] (skipLayout r) (skipLayout r') := by
    unfold skipLayout
    rw [hlayout]
    exact h.skip (Nat.le_of_eq hlength)
  have hnil' : (skipLayout r').rest = [] := by rw [hskip.rest, hnil, List.append_nil]
  rw [next_of_end hnil, next_of_end hnil', hskip.line, hskip.column]
  rfl

/-- If the second reader has a line break behind that, it goes on at the start of the line. -/
theorem next_newline {following : List Char} (h : Reader.Ahead lines ('\n' :: following) r r')
    (hkind : (next table r).1.kind = .finish) :
    next table r' = next table (r'.skip (r.rest.length + 1)) := by
  have hlayout : layoutLength r'.rest = r.rest.length + 1 + layoutLength following := by
    rw [h.rest]
    exact layoutLength_go_newline false (skipLayout_of_finish hkind).1 following
  have hrest : (r'.skip (r.rest.length + 1)).rest = following := (Reader.skip_newline h.rest).1
  unfold next skipLayout
  rw [hlayout, hrest, Reader.skip_add]

/-- The tokens from a place to the end of the text, the finishing one last. -/
inductive Runs (table : AliasTable) : Reader → List Token → Prop where
  | finish {r : Reader} (hkind : (next table r).1.kind = .finish) :
      Runs table r [(next table r).1]
  | token {r : Reader} {ts : List Token} (hkind : (next table r).1.kind ≠ .finish)
      (hrest : Runs table (next table r).2 ts) : Runs table r ((next table r).1 :: ts)

namespace Runs

variable {ts us : List Token}

/-- What is read from a place to the end is determined by the place. -/
theorem unique (hts : Runs table r ts) (hus : Runs table r us) : ts = us := by
  induction hts generalizing us with
  | finish hkind =>
      cases hus with
      | finish => rfl
      | token hne => exact absurd hkind hne
  | token hne _ ih =>
      cases hus with
      | finish hkind => exact absurd hkind hne
      | token _ hrest => rw [ih hrest]

/-- What is read depends on the next token and what is read behind it. -/
theorem of_next_eq (h : Runs table r ts) (heq : next table r' = next table r) :
    Runs table r' ts := by
  cases h with
  | finish hkind =>
      rw [← heq] at hkind ⊢
      exact .finish hkind
  | token hkind hrest =>
      rw [← heq] at hkind hrest ⊢
      exact .token hkind hrest

theorem of_scans {last : Reader} (h : Scans table r ts last)
    (hend : (next table last).1.kind = .finish) : Runs table r (ts ++ [(next table last).1]) := by
  induction h with
  | done r => exact .finish hend
  | blank hchars hblank _ ih => exact (ih hend).of_next_eq (next_of_blank hchars hblank)
  | @token r after last t us hnext hkind _ ih =>
      have hfirst : (next table r).1 = t := by rw [hnext]
      have hrest : Runs table (next table r).2 (us ++ [(next table last).1]) := by
        rw [hnext]
        exact ih hend
      rw [← hfirst] at hkind ⊢
      exact .token hkind hrest

/-- A reader that many lines further down reads the same tokens there. -/
theorem down (h : Runs table r ts) (hahead : Reader.Ahead lines [] r r') :
    Runs table r' (ts.map (Token.down lines)) := by
  induction h generalizing r' with
  | finish hkind =>
      rw [List.map_singleton, ← next_finish_down hahead hkind]
      apply Runs.finish
      rw [next_finish_down hahead hkind]
      exact hkind
  | token hkind _ ih =>
      obtain ⟨hfirst, hrest⟩ := next_inStep hahead nofun hkind (.inl rfl)
      rw [List.map_cons, ← hfirst]
      apply Runs.token
      · rw [hfirst]
        exact hkind
      · exact ih hrest

end Runs

theorem lastLine_next (table : AliasTable) (r : Reader) :
    (next table r).2.lastLine = r.lastLine := by
  have hlayout : (skipLayout r).lastLine = r.lastLine := r.lastLine_skip _
  unfold next
  cases hrest : (skipLayout r).rest with
  | nil =>
      unfold readToken
      rw [hrest]
      exact hlayout
  | cons c cs =>
      obtain ⟨t, n, hreads⟩ := exists_reads table (r := skipLayout r) (by simp [hrest])
      rw [hreads.result, Reader.lastLine_skip, hlayout]

/-- The second reader reads what the first does, and then what stands behind the line break. -/
theorem Runs.append_newline {ts us : List Token} {following : List Char}
    (h : Runs table r ts) (hclosed : ∀ t ∈ ts, ¬ t.Unclosed)
    (hahead : Reader.Ahead 0 ('\n' :: following) r r')
    (hfollowing : ∀ s : Reader, s.rest = following → s.line = r.lastLine + 1 → s.column = 1 →
      Runs table s us) : Runs table r' (ts.dropLast ++ us) := by
  induction h generalizing r' with
  | @finish r hkind =>
      obtain ⟨hrest, hline, hcolumn⟩ := Reader.skip_newline hahead.rest
      have hlast : r'.line + r.rest.count '\n' + 1 = r.lastLine + 1 := by
        rw [hahead.line]
        rfl
      apply (hfollowing _ hrest (hline.trans hlast) hcolumn).of_next_eq
      exact next_newline hahead hkind
  | @token r ts hkind hrun ih =>
      rw [List.forall_mem_cons] at hclosed
      have hbreaks : Breaks ('\n' :: following) := by
        rintro _ ⟨⟩
        rfl
      obtain ⟨hfirst, hrest⟩ := next_inStep hahead hbreaks hkind (.inr hclosed.1)
      have hne : ts ≠ [] := by cases hrun <;> exact List.cons_ne_nil _ _
      have hsame : (next table r').1 = (next table r).1 := hfirst
      rw [← hsame] at hkind
      rw [List.dropLast_cons_of_ne_nil hne, List.cons_append, ← hsame]
      apply Runs.token hkind
      apply ih hclosed.2 hrest
      rwa [lastLine_next]

/-- The tokens of a text, the finishing one included. -/
theorem runs_tokenize (table : AliasTable) (text : String) :
    Runs table (.ofString text) (tokenize table text) := by
  obtain ⟨ts, last, hscans, hend, hgo⟩ := tokens_go table _ (.ofString text) []
    (Nat.lt_succ_self _)
  have htokens : tokenize table text = ts ++ [(next table last).1] := by
    unfold tokenize ofString tokens
    rw [hgo]
    rfl
  rw [htokens]
  exact .of_scans hscans hend

/-- Lexing goes line by line. A text in which every quote is closed, a line break and any other
text have the tokens of the first text without the finishing one, followed by those of the other
text, which only stand as many lines further down as come before them. -/
theorem tokenize_append_newline (aliases : AliasTable) (a b : String)
    (hclosed : ∀ t ∈ tokenize aliases a, ¬ t.Unclosed) :
    tokenize aliases (a ++ "\n" ++ b) = (tokenize aliases a).dropLast ++
      (tokenize aliases b).map fun t =>
        { t with line := t.line + (1 + a.toList.count '\n') } := by
  have hahead : Reader.Ahead 0 ('\n' :: b.toList) (.ofString a) (.ofString (a ++ "\n" ++ b)) :=
    ⟨by simp [Reader.ofString], rfl, rfl⟩
  apply (runs_tokenize aliases (a ++ "\n" ++ b)).unique
  apply (runs_tokenize aliases a).append_newline hclosed hahead
  intro s hrest hline hcolumn
  apply (runs_tokenize aliases b).down
  constructor
  · rw [hrest, List.append_nil]
    rfl
  · rw [hline]
    simp only [Reader.lastLine, Reader.ofString]
    omega
  · exact hcolumn

/-- An open comment and the first half of a symbol end with their line, and a quoted text may hold
a newline. -/
theorem tokenize_append_newline_halves :
    (∀ t ∈ tokenize .empty "'x\ny' = # 'z", ¬ t.Unclosed) ∧
      tokenize .empty ("'x\ny' = # 'z" ++ "\n" ++ "= 7") =
        [⟨.text, "x\ny", 1, 1⟩, ⟨.symbol .assign, "=", 2, 4⟩, ⟨.symbol .assign, "=", 3, 1⟩,
          ⟨.number, "7", 3, 3⟩, .finish 3 4] := by
  have hclosed : ∀ t ∈ tokenize .empty "'x\ny' = # 'z", ¬ t.Unclosed := by decide +kernel
  refine ⟨hclosed, ?_⟩
  rw [tokenize_append_newline .empty _ _ hclosed]
  decide +kernel

end Lexer

end Scriptlet
