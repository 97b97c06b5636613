import Scriptlet.Proofs.Grammar.Completeness
import Scriptlet.Proofs.Parse.Depth
import Scriptlet.Proofs.Print.Canonical
import Scriptlet.Proofs.Tree.Outline

/-!
Parsing the canonical text of a parsed program. Each statement that is kept was
read without a diagnostic, so it is derived from tokens of the source, also when
other statements around it were left out. Its canonical text is then read and
parsed without complaint and gives an equal statement, with the aliases of the
source or without any.
-/

namespace Scriptlet

open Parse Parsed

namespace Cursor

/-- A property of all the tokens that a cursor has before it, the end apart. -/
def Holds (good : Token → Prop) (c : Cursor) : Prop :=
  ∀ t ∈ c.current :: c.ahead :: c.rest, t.kind ≠ .finish → good t

variable {good : Token → Prop} {c c' : Cursor}

theorem Holds.advance (h : c.Holds good) : c.advance.Holds good := by
  obtain ⟨current, ahead, rest, endLine, endColumn, depth, diagnostics⟩ := c
  cases rest with
  | nil =>
      intro t ht hkind
      rcases List.mem_cons.mp ht with rfl | hfinish
      · exact h _ (by simp) hkind
      · obtain rfl : t = .finish endLine endColumn := by simpa [Cursor.advance] using hfinish
        exact absurd rfl hkind
  | cons u rest =>
      intro t ht hkind
      exact h t (List.mem_cons_of_mem _ ht) hkind

theorem Holds.reach (h : c.Holds good) (hreach : c.Reach c') : c'.Holds good := by
  induction hreach with
  | refl => exact h
  | advance _ ih => exact ih.advance
  | record _ _ ih => exact ih

theorem Holds.standing (h : c.Holds good) : ∀ t ∈ c.standing, good t := by
  intro t ht
  apply h t ((List.takeWhile_sublist _).mem ht)
  have hkind := List.all_eq_true.mp List.all_takeWhile t ht
  simpa using hkind

theorem holds_start {tokens : List Token} (h : ∀ t ∈ tokens, good t) (line column : Nat) :
    (start tokens line column).Holds good := by
  unfold start
  apply Holds.advance
  apply Holds.advance
  intro t ht hkind
  simp only [List.mem_cons] at ht
  rcases ht with rfl | rfl | hmem
  · exact absurd rfl hkind
  · exact absurd rfl hkind
  · exact h t hmem

end Cursor

namespace Parse

variable {nested : Nested} {limit : Nat}
  (horderly : ∀ strength c, Orderly limit c (nested strength c))
include horderly

/-- Every statement of a program was read somewhere on the way without a
diagnostic. -/
theorem programStatements_kept (fuel : Nat) (read : List Node) (c : Cursor) :
    (programStatements nested fuel read c).Meets
      (fun found _ => ∀ tree ∈ found, tree ∈ read ∨ ∃ c₁ c₂, c.Reach c₁ ∧
        statement nested c₁ = .done tree c₂ ∧ c₂.diagnostics = c₁.diagnostics)
      (fun _ => True) fun _ => True := by
  induction fuel generalizing read c with
  | zero => trivial
  | succ fuel ih =>
      simp only [programStatements, current_bind, ite_run, pure_run]
      split
      next =>
        intro tree htree
        exact .inl (List.mem_reverse.mp htree)
      next =>
        rw [bind_run]
        cases hfound : recovering 0 (statement nested) c with
        | refused c₁ => trivial
        | tooDeep c₁ => trivial
        | done found c₁ =>
            have hreach := recovering_reach horderly hfound
            simp only [advance_bind]
            apply (ih (found.toList ++ read) c₁.advance).mono
            · intro trees _ hkept tree htree
              rcases hkept tree htree with hread | ⟨c₂, c₃, hreach', hstatement⟩
              · rcases List.mem_append.mp hread with hnew | hold
                · right
                  obtain rfl : found = some tree := by simpa using hnew
                  rcases recovering_done (statement_orderly horderly .refl) hfound with
                    ⟨_, ⟨⟩, hstatement⟩ | ⟨⟨⟩, -⟩
                  exact ⟨c, c₁, .refl, hstatement⟩
                · exact .inl hold
              · exact .inr ⟨c₂, c₃, hreach.advance.trans hreach', hstatement⟩
            · exact fun _ h => h
            · exact fun _ h => h

end Parse

/-- The statements of a parsed program are derived from tokens of its source. -/
theorem Reading.statements_derive {good : Token → Prop} {levels : Nat} {c : Cursor}
    {program : Node} {diagnostics : List Diagnostic} (hgood : c.Holds good)
    (h : ofCursor levels c = .parsed program diagnostics) :
    ∃ trees, program = .program trees ∧
      ∀ tree ∈ trees, ∃ ts, Derives (.statement tree) ts ∧ ∀ t ∈ ts, good t := by
  have hkept := programStatements_kept (expression_orderly levels) c.turns [] c
  have hnever := programStatements_ne_refused levels c
  rw [ofCursor_eq] at h
  revert h hkept hnever
  cases programStatements (expression levels) c.turns [] c with
  | done trees after =>
      intro h hkept _
      simp only [ofStatements, Reading.parsed.injEq] at h
      obtain ⟨rfl, _⟩ := h
      refine ⟨trees, rfl, ?_⟩
      intro tree htree
      rcases hkept tree htree with hnil | ⟨c₁, c₂, hreach, hstatement, hclean⟩
      · exact absurd hnil (by simp)
      · have hsound := statement_sound (expression_sound levels) c₁
        rw [hstatement] at hsound
        obtain ⟨read, hread, hspelled⟩ := hsound.2 hclean
        have hall (t : Token) (ht : t ∈ read) : good t :=
          (hgood.reach hreach).standing t (by rw [hread]; exact List.mem_append_left _ ht)
        rcases hspelled with ⟨ts, semicolon, _, rfl, hts⟩ | ⟨hts, _⟩
        · exact ⟨ts, hts, fun t ht => hall t (List.mem_append_left _ ht)⟩
        · exact ⟨read, hts, hall⟩
  | refused after => exact fun _ _ hnever => absurd rfl (hnever after)
  | tooDeep after =>
      intro h
      cases h

/-- Statements that were derived are written one after another. -/
theorem prints_statements {table : AliasTable} {trees : List Node}
    (h : ∀ tree ∈ trees, ∃ ts, Derives (.statement tree) ts ∧ ∀ t ∈ ts, t.Legible table) :
    Phrase.Prints table (.statements trees) := by
  induction trees with
  | nil => exact .empty rfl ⟨[], rfl, .noStatements⟩
  | cons tree trees ih =>
      obtain ⟨ts, hts, hlegible⟩ := h tree (by simp)
      have htrees := ih fun other hother => h other (by simp [hother])
      exact .statements (hts.prints hlegible) htrees

namespace Cursor

theorem standing_ofText (table : AliasTable) (text : String) :
    (ofText table text).standing = (Lexer.ofString table text).1 := by
  obtain ⟨r, hscans, _⟩ := Lexer.ofString_scans table text
  exact standing_start _ _ _ fun t ht => (hscans.legible t ht).2

theorem holds_ofText (table : AliasTable) (text : String) :
    (ofText table text).Holds (·.Legible table) := by
  obtain ⟨r, hscans, _⟩ := Lexer.ofString_scans table text
  exact holds_start (fun t ht => (hscans.legible t ht).1) _ _

/-- There are no more tokens in a text than characters. -/
theorem length_ofString_le (table : AliasTable) (text : String) :
    (Lexer.ofString table text).1.length ≤ text.length := by
  obtain ⟨r, hscans, _⟩ := Lexer.ofString_scans table text
  have hlength := hscans.length_le
  simp only [Reader.ofString, String.length_toList] at hlength
  omega

end Cursor

namespace Reading

/-- With more levels than characters, parsing a text comes to an end. -/
theorem ofText_parsed {levels : Nat} (aliases : AliasTable) (text : String)
    (h : text.length < levels) :
    ∃ program diagnostics, ofText levels aliases text = .parsed program diagnostics := by
  have htokens := Cursor.length_ofString_le aliases text
  have hleft : (Cursor.ofText aliases text).left ≤ (Lexer.ofString aliases text).1.length :=
    Cursor.left_start_le _ _ _
  have hlevels : (Cursor.ofText aliases text).left < levels := by omega
  obtain ⟨statements, diagnostics, hparsed⟩ := ofCursor_parsed hlevels
  exact ⟨.program statements, diagnostics, hparsed⟩

/-- A text that spells a program is parsed as an equal one, without diagnostics. -/
theorem ofText_of_prints {table : AliasTable} {trees : List Node} {text : String}
    {deep : Nat} (h : Phrase.Prints table (.statements trees))
    (htext : text = (Node.program trees).render) (hdeep : text.length < deep) :
    ∃ copy, ofText deep table text = .parsed copy [] ∧
      (Node.program trees).same copy = true := by
  have hchars : (Reader.ofString text).rest = (Phrase.statements trees).text ++ [] := by
    rw [List.append_nil, htext]
    rfl
  obtain ⟨ts, r, hscans, hend, copy, hsame, hderives⟩ := h _ [] hchars (by simp [Apart])
  have htokens : (Lexer.ofString table text).1 = ts := Lexer.ofString_eq_of_scans hscans hend
  have hstanding : (Cursor.ofText table text).standing = ts := by
    rw [Cursor.standing_ofText, htokens]
  have hlength := Cursor.length_ofString_le table text
  refine ⟨.program copy, ?_, hsame⟩
  apply ofCursor_of_derives
  · simp [Cursor.ofText, Cursor.start]
  · rwa [hstanding]
  · rw [hstanding, ← htokens]
    omega

/-- The canonical text of a parsed program, whatever its source and however much of
it was right, is parsed without diagnostics as an equal program, with the aliases
of the source or without any. Parsing comes to an end if there are more levels than
characters, and whenever it does, that is its result. -/
theorem ofText_canonical (aliases : AliasTable) (text : String) :
    (∀ levels, text.length < levels →
      ∃ program diagnostics, ofText levels aliases text = .parsed program diagnostics) ∧
    ∀ levels program diagnostics, ofText levels aliases text = .parsed program diagnostics →
      ∃ canonical, program.canonical? = some canonical ∧
        ∀ table, table = aliases ∨ table = .empty →
          (∀ deep, canonical.length < deep →
            ∃ copy found, ofText deep table canonical = .parsed copy found) ∧
          ∀ deep copy found, ofText deep table canonical = .parsed copy found →
            found = [] ∧ program.same copy = true := by
  refine ⟨fun levels hlevels => ofText_parsed aliases text hlevels, ?_⟩
  intro levels program diagnostics hparsed
  obtain ⟨trees, rfl, htrees⟩ := statements_derive (Cursor.holds_ofText aliases text) hparsed
  have hruled : (Node.program trees).Ruled := by
    apply Node.ruled_of_children (by simp [Node.kind])
    intro tree htree
    obtain ⟨ts, hts, _⟩ := htrees tree htree
    exact hts.ruled
  refine ⟨(Node.program trees).render, hruled.canonical?_eq, ?_⟩
  intro table htable
  refine ⟨fun deep hdeep => ofText_parsed table _ hdeep, ?_⟩
  intro deep copy found hcopy
  have hlegible : ∀ tree ∈ trees, ∃ ts, Derives (.statement tree) ts ∧
      ∀ t ∈ ts, t.Legible table := by
    intro tree htree
    obtain ⟨ts, hts, hsource⟩ := htrees tree htree
    refine ⟨ts, hts, ?_⟩
    intro t ht
    rcases htable with rfl | rfl
    · exact hsource t ht
    · exact (hsource t ht).empty
  -- A parse that came to an end is that of any larger number of levels.
  let enough := max deep ((Node.program trees).render.length + 1)
  have hdeep : (Node.program trees).render.length < enough := by omega
  obtain ⟨copy', hcopy', hsame⟩ := ofText_of_prints (prints_statements hlegible) rfl hdeep
  have hmore : ofText enough table (Node.program trees).render = .parsed copy found :=
    ofCursor_more (by omega) hcopy
  rw [hmore, Reading.parsed.injEq] at hcopy'
  obtain ⟨rfl, rfl⟩ := hcopy'
  exact ⟨rfl, hsame⟩

/-- What is parsed of a binding without a name and an empty conditional behind it,
the latter begun with an alias. -/
def emptyConditional : Node :=
  .program [.expression ⟨.keyword .ifWord, "si", 1, 7⟩
    (.conditional ⟨.keyword .ifWord, "si", 1, 7⟩ (.ident ⟨⟨.ident, "a", 1, 11⟩, "a"⟩)
      (.block ⟨.symbol .leftBrace, "\x7b", 1, 14⟩ []) none)]

theorem emptyConditional_canonical :
    ∃ copy, ofText 40 .empty "if (a) \x7b \x7d" = .parsed copy [] ∧
      emptyConditional.same copy = true := by
  obtain ⟨canonical, hcanonical, hagain⟩ :=
    (ofText_canonical ⟨[("si", .ifWord)]⟩ "let ; si (a) \x7b\x7d").2 40 emptyConditional _ rfl
  obtain rfl : "if (a) \x7b \x7d" = canonical := Option.some.inj (Eq.trans rfl hcanonical)
  obtain ⟨hends, hresult⟩ := hagain .empty (.inr rfl)
  obtain ⟨copy, found, hparsed⟩ := hends 40 (by decide)
  obtain ⟨rfl, hsame⟩ := hresult 40 copy found hparsed
  exact ⟨copy, hparsed, hsame⟩

end Reading

end Scriptlet
