import Scriptlet.Proofs.Lex.Lines
import Scriptlet.Proofs.Lex.Spans
import Scriptlet.Proofs.Parse.Recovery

/-!
The regions of a text. A character stands in code, in a comment or in a quoted text, and one pass
over the characters before it tells which. The lexer reads the braces that stand in code, each as
a token of its own, and no others: the braces of the tokens are those of the code.
-/

namespace Scriptlet

/-- Where a character stands. -/
inductive Region where
  | code
  | comment
  | quoted (closing : Char)
  /-- Behind a backslash in a quoted text. -/
  | escaped (closing : Char)
  deriving DecidableEq

namespace Region

/-- The region behind a character. -/
def after : Region → Char → Region
  | .code, c => if c = '#' then .comment else if Quoting.isQuote c then .quoted c else .code
  | .comment, c => if c = '\n' then .code else .comment
  | .quoted closing, c =>
    if c = closing then .code else if c = '\\' then .escaped closing else .quoted closing
  | .escaped closing, _ => .quoted closing

def isCode : Region → Bool
  | .code => true
  | _ => false

theorem after_code (c : Char) : code.after c =
    if c = '#' then .comment else if Quoting.isQuote c then .quoted c else .code := rfl

theorem after_comment (c : Char) : comment.after c = if c = '\n' then .code else .comment := rfl

theorem after_quoted (closing c : Char) : (quoted closing).after c =
    if c = closing then .code else if c = '\\' then .escaped closing else .quoted closing := rfl

theorem after_escaped (closing c : Char) : (escaped closing).after c = .quoted closing := rfl

end Region

/-- The brace that a character opens. -/
def braceOf (c : Char) : Int :=
  if c = '\x7b' then 1 else if c = '\x7d' then -1 else 0

/-- Braces opened less braces closed, in the regions that count. -/
def bracesIn (counts : Region → Bool) : Region → List Char → Int
  | _, [] => 0
  | region, c :: cs =>
    (if counts region then braceOf c else 0) + bracesIn counts (region.after c) cs

/-- Braces that a text opens in its code, less those that it closes there. -/
def codeBraces (text : String) : Int :=
  bracesIn Region.isCode .code text.toList

/-- Braces that a text opens in comments and quoted texts, less those that it closes there. -/
def hiddenBraces (text : String) : Int :=
  bracesIn (fun region => !region.isCode) .code text.toList

theorem bracesIn_cons (counts : Region → Bool) (region : Region) (c : Char) (cs : List Char) :
    bracesIn counts region (c :: cs) =
      (if counts region then braceOf c else 0) + bracesIn counts (region.after c) cs := rfl

theorem bracesIn_code (c : Char) (cs : List Char) :
    bracesIn Region.isCode .code (c :: cs) =
      braceOf c + bracesIn Region.isCode (Region.code.after c) cs := rfl

/-- Outside of code no brace counts. -/
theorem bracesIn_hidden {region : Region} (h : region.isCode = false) (c : Char)
    (cs : List Char) : bracesIn Region.isCode region (c :: cs) =
      bracesIn Region.isCode (region.after c) cs := by
  rw [bracesIn_cons, h, if_neg Bool.false_ne_true, Int.zero_add]

theorem braceOf_add_count (c : Char) (cs : List Char) :
    braceOf c + ((cs.count '\x7b' : Int) - cs.count '\x7d') =
      ((c :: cs).count '\x7b' : Int) - (c :: cs).count '\x7d' := by
  rw [List.count_cons, List.count_cons]
  unfold braceOf
  by_cases hopening : c = '\x7b'
  · subst hopening
    simp
    omega
  · by_cases hclosing : c = '\x7d'
    · subst hclosing
      simp
      omega
    · simp [hopening, hclosing]

/-- Every brace stands in a region that counts or in one that does not. -/
theorem bracesIn_add_not (counts : Region → Bool) (region : Region) (cs : List Char) :
    bracesIn counts region cs + bracesIn (fun other => !counts other) region cs =
      (cs.count '\x7b' : Int) - cs.count '\x7d' := by
  induction cs generalizing region with
  | nil => rfl
  | cons c cs ih =>
      rw [← braceOf_add_count, ← ih (region.after c), bracesIn_cons, bracesIn_cons]
      cases counts region <;> simp <;> omega

theorem Text.isWordChar_of_mem {cs : List Char} {c : Char} (h : isWord cs = true)
    (hc : c ∈ cs) : isWordChar c = true := by
  cases cs with
  | nil => cases hc
  | cons d cs =>
      rw [isWord, Bool.and_eq_true] at h
      exact List.all_eq_true.mp h.2 c hc

namespace Lexer

open Region

variable {table : AliasTable} {r : Reader} {t : Token} {cs following : List Char}

/-- A character that says nothing in code. -/
def Plain (c : Char) : Prop :=
  braceOf c = 0 ∧ Region.code.after c = .code

/-- The characters that are not plain. -/
def marked : List Char :=
  ['\x7b', '\x7d', '#', '"', '\'']

theorem plain_of_not_mem {c : Char} (h : c ∉ marked) : Plain c := by
  simp only [marked, List.mem_cons, List.not_mem_nil, or_false, not_or] at h
  obtain ⟨hopening, hclosing, hcomment, hdouble, hsingle⟩ := h
  simp [Plain, braceOf, after_code, Quoting.isQuote, *]

/-- A class without braces, quotes and the comment sign. -/
theorem plain_of_class {p : Char → Bool} (hclass : marked.any p = false) {c : Char}
    (h : p c = true) : Plain c := by
  apply plain_of_not_mem
  intro hmem
  exact List.any_eq_false.mp hclass c hmem h

theorem plain_of_isBlank {c : Char} (h : Text.isBlank c = true) : Plain c :=
  plain_of_class (by decide) h

theorem plain_of_isWordChar {c : Char} (h : Text.isWordChar c = true) : Plain c :=
  plain_of_class (by decide) h

theorem bracesIn_plain_append (h : ∀ c ∈ cs, Plain c) (following : List Char) :
    bracesIn isCode .code (cs ++ following) = bracesIn isCode .code following := by
  induction cs with
  | nil => rfl
  | cons c cs ih =>
      rw [List.forall_mem_cons] at h
      rw [List.cons_append, bracesIn_code, h.1.1, h.1.2, ih h.2, Int.zero_add]

/-- Behind a comment the code goes on. -/
theorem bracesIn_comment {inner : List Char} (h : '\n' ∉ inner) (following : List Char) :
    bracesIn isCode .comment (inner ++ '\n' :: following) = bracesIn isCode .code following := by
  induction inner with
  | nil => rw [List.nil_append, bracesIn_hidden rfl, after_comment, if_pos rfl]
  | cons c inner ih =>
      rw [List.mem_cons, not_or] at h
      rw [List.cons_append, bracesIn_hidden rfl, after_comment, if_neg (Ne.symm h.1), ih h.2]

theorem bracesIn_lastComment {inner : List Char} (h : '\n' ∉ inner) :
    bracesIn isCode .comment inner = 0 := by
  induction inner with
  | nil => rfl
  | cons c inner ih =>
      rw [List.mem_cons, not_or] at h
      rw [bracesIn_hidden rfl, after_comment, if_neg (Ne.symm h.1), ih h.2]

theorem bracesIn_layout (h : Layout following cs) :
    bracesIn isCode .code (cs ++ following) = bracesIn isCode .code following := by
  have hsign (ds : List Char) :
      bracesIn isCode .code ('#' :: ds) = bracesIn isCode .comment ds := by
    rw [bracesIn_code, after_code, if_pos rfl]
    exact Int.zero_add _
  induction h with
  | nil => rfl
  | @blank c cs hblank _ ih =>
      have hplain : ∀ d ∈ [c], Plain d := by simpa using plain_of_isBlank hblank
      exact (bracesIn_plain_append hplain _).trans ih
  | comment hinner _ ih =>
      rw [List.cons_append, hsign, List.append_assoc, List.cons_append, bracesIn_comment hinner,
        ih]
  | lastComment hinner hend =>
      rw [hend, List.append_nil, hsign, bracesIn_lastComment hinner]
      rfl

section Quoted

variable {closing c : Char} {inner decoded found : List Char} {count : Nat}

theorem bracesIn_closing (h : (c == closing) = true) (ds : List Char) :
    bracesIn isCode (.quoted closing) (c :: ds) = bracesIn isCode .code ds := by
  rw [bracesIn_hidden rfl, after_quoted, if_pos (beq_iff_eq.mp h)]

theorem bracesIn_escape (h : ¬ (c == closing) = true) (hescape : (c == '\\') = true)
    (escaped : Char) (ds : List Char) :
    bracesIn isCode (.quoted closing) (c :: escaped :: ds) =
      bracesIn isCode (.quoted closing) ds := by
  rw [beq_iff_eq] at h hescape
  rw [bracesIn_hidden rfl, after_quoted, if_neg h, if_pos hescape, bracesIn_hidden rfl,
    after_escaped]

theorem bracesIn_inside (h : ¬ (c == closing) = true) (hescape : ¬ (c == '\\') = true)
    (ds : List Char) :
    bracesIn isCode (.quoted closing) (c :: ds) = bracesIn isCode (.quoted closing) ds := by
  rw [beq_iff_eq] at h hescape
  rw [bracesIn_hidden rfl, after_quoted, if_neg h, if_neg hescape]

/-- Behind the closing quote of a text the code goes on. -/
theorem bracesIn_quoted (h : Quoting.scanQuoted.go closing inner decoded count =
      some (found, count + inner.length)) (following : List Char) :
    bracesIn isCode (.quoted closing) (inner ++ following) =
      bracesIn isCode .code following := by
  fun_induction Quoting.scanQuoted.go closing inner decoded count with
  | case1 | case3 => cases h
  | case2 c inner decoded count hclosing =>
      -- the closing quote is the last character
      obtain ⟨_, hlength⟩ := Prod.mk.inj (Option.some.inj h)
      obtain rfl : inner = [] := by
        rw [← List.length_eq_zero_iff]
        rw [List.length_cons] at hlength
        omega
      exact bracesIn_closing hclosing following
  | case4 c decoded count hclosing hescape escaped inner ih =>
      rw [List.cons_append, List.cons_append, bracesIn_escape hclosing hescape]
      apply ih
      rw [h, List.length_cons, List.length_cons]
      congr 2
      omega
  | case5 c inner decoded count hclosing hescape ih =>
      rw [List.cons_append, bracesIn_inside hclosing hescape]
      apply ih
      rw [h, List.length_cons]
      congr 2
      omega

/-- A quoted text that is never closed hides all the rest. -/
theorem bracesIn_unclosed (h : Quoting.scanQuoted.go closing inner decoded count = none) :
    bracesIn isCode (.quoted closing) inner = 0 := by
  fun_induction Quoting.scanQuoted.go closing inner decoded count with
  | case1 => rfl
  | case2 => cases h
  | case3 c decoded count hclosing hescape => exact bracesIn_hidden rfl c []
  | case4 c decoded count hclosing hescape escaped inner ih =>
      rw [bracesIn_escape hclosing hescape]
      exact ih h
  | case5 c inner decoded count hclosing hescape ih =>
      rw [bracesIn_inside hclosing hescape]
      exact ih h

end Quoted

theorem bracesIn_symbol (mark : Symbol) (following : List Char) :
    bracesIn isCode .code (mark.lexeme.toList ++ following) =
      (Kind.symbol mark).opening + bracesIn isCode .code following := by
  cases mark <;>
    simp [Symbol.lexeme, bracesIn_code, braceOf, after_code, Quoting.isQuote, Kind.opening]

theorem bracesIn_quote {quote : Char} (h : Quoting.isQuote quote = true) (ds : List Char) :
    bracesIn isCode .code (quote :: ds) = bracesIn isCode (.quoted quote) ds := by
  have hsigns : quote = '"' ∨ quote = '\'' := by simpa [Quoting.isQuote] using h
  rcases hsigns with rfl | rfl <;> simp [bracesIn_code, after_code, braceOf, Quoting.isQuote]

/-- A character of its own that is no symbol and starts nothing else is plain. -/
theorem plain_of_no_symbol {c : Char} (hink : IsInk c) (hquote : Quoting.isQuote c = false)
    (hmark : ∀ mark : Symbol, ¬ mark.lexeme.toList <+: c :: following) : Plain c := by
  apply plain_of_not_mem
  intro hmem
  simp only [marked, List.mem_cons, List.not_mem_nil, or_false] at hmem
  rcases hmem with rfl | rfl | rfl | rfl | rfl
  · exact hmark .leftBrace (List.prefix_append ['\x7b'] following)
  · exact hmark .rightBrace (List.prefix_append ['\x7d'] following)
  · exact hink.2 rfl
  · cases hquote
  · cases hquote

/-- The braces of a lexeme in code are those of its token. -/
theorem bracesIn_lexeme (h : t.Lexeme cs following) (hink : ∀ c ∈ cs.head?, IsInk c) :
    bracesIn isCode .code (cs ++ following) =
      t.kind.opening + bracesIn isCode .code following := by
  have hplain (hopening : t.kind.opening = 0) (hcs : ∀ c ∈ cs, Plain c) :
      bracesIn isCode .code (cs ++ following) =
        t.kind.opening + bracesIn isCode .code following := by
    rw [hopening, Int.zero_add, bracesIn_plain_append hcs]
  unfold Token.Lexeme at h
  cases hkind : t.kind with
  | ident | keyword =>
      rw [hkind] at h hplain
      apply hplain rfl
      intro c hc
      exact plain_of_isWordChar (Text.isWordChar_of_mem h.1 hc)
  | number =>
      rw [hkind] at h hplain
      apply hplain rfl
      intro c hc
      exact plain_of_isWordChar (Text.isWordChar_of_isDigit (h.2.1 c hc))
  | symbol mark =>
      rw [hkind] at h
      rw [h.1, bracesIn_symbol]
  | text =>
      rw [hkind] at h
      obtain ⟨quote, inner, rfl, hquote, hscan⟩ := h
      have hcounted : Quoting.scanQuoted.go quote inner [] 0 =
          some (t.value.toList, 0 + inner.length) := by
        rw [Nat.zero_add]
        exact hscan
      rw [List.cons_append, bracesIn_quote hquote, bracesIn_quoted hcounted]
      exact (Int.zero_add _).symm
  | fault =>
      rw [hkind] at h hplain
      rcases h with ⟨quote, inner, rfl, hquote, rfl, hscan⟩ | ⟨c, rfl, _, _, hquote, hmark⟩
      · rw [List.append_nil, bracesIn_quote hquote, bracesIn_unclosed hscan]
        rfl
      · apply hplain rfl
        simpa using plain_of_no_symbol (hink c rfl) hquote hmark
  | finish | other =>
      rw [hkind] at h
      exact h.elim

theorem bracesIn_skipLayout (r : Reader) :
    bracesIn isCode .code r.rest = bracesIn isCode .code (skipLayout r).rest := by
  have hlayout := bracesIn_layout (layoutLength_go_layout r.rest).1
  rw [List.take_append_drop] at hlayout
  rw [hlayout]
  unfold skipLayout
  rw [Reader.skip_rest]
  rfl

/-- One token takes its brace off the code that is left. -/
theorem bracesIn_next (hkind : (next table r).1.kind ≠ .finish) :
    bracesIn isCode .code r.rest =
      (next table r).1.kind.opening + bracesIn isCode .code (next table r).2.rest := by
  have hne : (skipLayout r).rest ≠ [] := by
    intro hnil
    rw [next_of_end hnil] at hkind
    exact hkind rfl
  obtain ⟨t, n, hreads⟩ := exists_reads table hne
  have hink : ∀ c ∈ ((skipLayout r).rest.take n).head?, IsInk c := by
    rw [List.head?_take, if_neg (Nat.ne_of_gt hreads.pos)]
    exact skipLayout_ink r
  have hlexeme := bracesIn_lexeme hreads.lexeme hink
  rw [List.take_append_drop, ← Reader.skip_rest] at hlexeme
  unfold next
  rw [bracesIn_skipLayout, hlexeme, hreads.result]

theorem Runs.openBraces_eq {ts : List Token} (h : Runs table r ts) :
    openBraces ts = bracesIn isCode .code r.rest := by
  induction h with
  | @finish r hkind =>
      rw [bracesIn_skipLayout, (skipLayout_of_finish hkind).2, openBraces, hkind]
      rfl
  | @token r ts hkind _ ih => rw [openBraces, ih, bracesIn_next hkind]

/-- The braces of the tokens of a text are those of its code. -/
theorem openBraces_tokenize (table : AliasTable) (text : String) :
    openBraces (tokenize table text) = codeBraces text :=
  (runs_tokenize table text).openBraces_eq

end Lexer

end Scriptlet
