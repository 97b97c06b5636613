import Scriptlet.Proofs.Eval.Relabel
import Scriptlet.Proofs.Eval.Unbroken

/-!
Layout does not change what a text means. Two readings agree if the programs are structurally
equal, the diagnostics pairwise alike, and the programs cannot be told apart by evaluating
them. Readings of tokens that a relabelling makes equal agree. Where tokens stand is one such
difference, and it is the only one between texts whose tokens have the same kinds and values.
-/

namespace Scriptlet

namespace Reading

/-- Readings of programs that mean the same, with diagnostics that are alike. -/
inductive Agrees (alike : Diagnostic → Diagnostic → Prop) : Reading → Reading → Prop where
  | parsed {program program' : Node} {diagnostics diagnostics' : List Diagnostic}
      (hsame : program.same program' = true)
      (hdiagnostics : List.Forall₂ alike diagnostics diagnostics')
      (hview : ∀ levels scope m, (evaluate levels scope program m).view scope =
        (evaluate levels scope program' m).view scope)
      (hunbroken : ∀ levels, Eval.Unbroken Machine.withScope.2 (fun _ => True)
        (evaluate levels Machine.withScope.1 program)) :
      Agrees alike (.parsed program diagnostics) (.parsed program' diagnostics')
  | tooDeep {diagnostics diagnostics' : List Diagnostic}
      (hdiagnostics : List.Forall₂ alike diagnostics diagnostics') :
      Agrees alike (.tooDeep diagnostics) (.tooDeep diagnostics')

end Reading

namespace Relabelling

variable (r : Relabelling)

/-- The reading with every token changed. -/
def reading : Reading → Reading
  | .parsed program diagnostics => .parsed (r.node program) (diagnostics.map r.diagnostic)
  | .tooDeep diagnostics => .tooDeep (diagnostics.map r.diagnostic)

theorem reading_ofCursor (levels : Nat) (c : Cursor) :
    Reading.ofCursor levels (r.cursor [] c) = r.reading (Reading.ofCursor levels c) := by
  have hstatements : Parse.programStatements (Parse.expression levels) c.turns []
      (r.cursor [] c) =
        r.outcome [] r.nodes (Parse.programStatements (Parse.expression levels) c.turns [] c) :=
    Parse.programStatements_relabel (Parse.expression_relabel levels) c.turns [] c
  rw [Reading.ofCursor_eq, Reading.ofCursor_eq, cursor_turns, hstatements]
  cases Parse.programStatements (Parse.expression levels) c.turns [] c <;> rfl

variable {r}

/-- Cursors that a relabelling makes equal give readings that agree. -/
theorem agrees_of_cursor_eq {alike : Diagnostic → Diagnostic → Prop}
    (halike : ∀ {d d'}, r.diagnostic d = r.diagnostic d' → alike d d') {c c' : Cursor}
    (h : r.cursor [] c = r.cursor [] c') (levels : Nat) :
    (Reading.ofCursor levels c).Agrees alike (Reading.ofCursor levels c') := by
  have hdiagnostics {ds ds' : List Diagnostic}
      (h : ds.map r.diagnostic = ds'.map r.diagnostic) : List.Forall₂ alike ds ds' := by
    have hpairs : List.Forall₂ (· = ·) (ds.map r.diagnostic) (ds'.map r.diagnostic) := by
      rw [h]
      exact List.forall₂_refl _
    rw [List.forall₂_map_left_iff, List.forall₂_map_right_iff] at hpairs
    exact hpairs.imp fun _ _ => halike
  have heq : r.reading (Reading.ofCursor levels c) = r.reading (Reading.ofCursor levels c') := by
    rw [← r.reading_ofCursor, ← r.reading_ofCursor, h]
  cases hc : Reading.ofCursor levels c with
  | parsed program ds =>
      cases hc' : Reading.ofCursor levels c' with
      | parsed program' ds' =>
          rw [hc, hc'] at heq
          obtain ⟨hnode, hds⟩ := Reading.parsed.inj heq
          have hformed := Reading.formed hc
          refine .parsed (r.same_of_node_eq r hnode) (hdiagnostics hds) ?_ ?_
          · exact fun levels scope m => view_evaluate_eq hnode rfl levels scope
          · intro depth
            exact (evaluate_unbroken depth _ .program program _ hformed
              Machine.regular_withScope).mono fun _ _ => trivial
      | tooDeep ds' =>
          rw [hc, hc'] at heq
          cases heq
  | tooDeep ds =>
      cases hc' : Reading.ofCursor levels c' with
      | parsed program' ds' =>
          rw [hc, hc'] at heq
          cases heq
      | tooDeep ds' =>
          rw [hc, hc'] at heq
          exact .tooDeep (hdiagnostics (Reading.tooDeep.inj heq))

/-- A relabelled cursor is one over relabelled tokens. -/
theorem cursor_start (hfinish : r.token (.finish 0 0) = .finish 0 0) (tokens : List Token)
    (line column : Nat) :
    r.cursor [] (.start tokens line column) =
      .start (tokens.map r.token) (r.token (.finish line column)).line
        (r.token (.finish line column)).column := by
  unfold Cursor.start
  rw [← r.cursor_advance, ← r.cursor_advance]
  simp only [cursor, hfinish]
  rfl

/-- Takes the positions off. -/
def unplaced : Relabelling where
  token t := { t with line := 0, column := 0 }
  kind_token _ := rfl
  value_token _ _ := rfl

end Relabelling

/-- The diagnostic about a token that stands elsewhere. -/
def Diagnostic.moved (line column : Nat) : Diagnostic → Diagnostic
  | .expected wanted found => .expected wanted { found with line, column }
  | .noExpression found => .noExpression { found with line, column }
  | .badInteger text => .badInteger text

namespace Relabelling

theorem moved_of_unplaced {d d' : Diagnostic}
    (h : unplaced.diagnostic d = unplaced.diagnostic d') :
    ∃ line column, d' = d.moved line column := by
  have hfound {t t' : Token} (h : unplaced.token t = unplaced.token t') :
      t' = { t with line := t'.line, column := t'.column } := by
    obtain ⟨hkind, hvalue, _, _⟩ := Token.mk.inj h
    rw [hkind, hvalue]
  cases d with
  | expected wanted t =>
      cases d' with
      | expected wanted' t' =>
          obtain ⟨rfl, ht⟩ := Diagnostic.expected.inj h
          exact ⟨t'.line, t'.column, congrArg (Diagnostic.expected wanted) (hfound ht)⟩
      | _ => cases h
  | noExpression t =>
      cases d' with
      | noExpression t' =>
          have ht := hfound (Diagnostic.noExpression.inj h)
          exact ⟨t'.line, t'.column, congrArg Diagnostic.noExpression ht⟩
      | _ => cases h
  | badInteger text =>
      cases d' with
      | badInteger text' =>
          cases h
          exact ⟨0, 0, rfl⟩
      | _ => cases h

end Relabelling

open Relabelling

/-- Layout never changes meaning. Texts whose tokens have the same kinds and values are read as
structurally equal programs with the same diagnostics but for the positions in them, or both
are nested too deeply; and evaluation, in a new scope or anywhere, cannot tell the programs
apart. -/
theorem layout_agrees (aliases aliases' : AliasTable) (text text' : String)
    (h : (Lexer.tokenize aliases text).map (fun t => (t.kind, t.value)) =
      (Lexer.tokenize aliases' text').map fun t => (t.kind, t.value)) (levels : Nat) :
    (Reading.ofText levels aliases text).Agrees
      (fun d d' => ∃ line column, d' = d.moved line column)
      (Reading.ofText levels aliases' text') := by
  apply agrees_of_cursor_eq moved_of_unplaced
  have htokens : (Lexer.tokenize aliases text).map unplaced.token =
      (Lexer.tokenize aliases' text').map unplaced.token := by
    have hmap := congrArg (List.map fun entry : Kind × String => Token.mk entry.1 entry.2 0 0) h
    rwa [List.map_map, List.map_map] at hmap
  unfold Lexer.tokenize at htokens
  rw [List.map_append, List.map_append] at htokens
  obtain ⟨hread, hfinish⟩ := List.append_inj' htokens rfl
  unfold Cursor.ofText
  rw [cursor_start rfl, cursor_start rfl, hread]
  rfl

/-- Quotes, comments, blanks and lines make no difference, also where a text is wrong. -/
theorem layout_agrees_lines :
    (Lexer.tokenize .empty "x = 'a' ; let 5 # no name").map (fun t => (t.kind, t.value)) =
        (Lexer.tokenize .empty "x=\"a\";\nlet 5").map (fun t => (t.kind, t.value)) ∧
      (Reading.ofText 20 .empty "x = 'a' ; let 5 # no name").Agrees
        (fun d d' => ∃ line column, d' = d.moved line column)
        (Reading.ofText 20 .empty "x=\"a\";\nlet 5") := by
  have htokens : (Lexer.tokenize .empty "x = 'a' ; let 5 # no name").map
      (fun t => (t.kind, t.value)) =
        (Lexer.tokenize .empty "x=\"a\";\nlet 5").map (fun t => (t.kind, t.value)) := by
    decide +kernel
  exact ⟨htokens, layout_agrees .empty .empty _ _ htokens 20⟩

end Scriptlet
