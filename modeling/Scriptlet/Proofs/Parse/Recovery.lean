import Scriptlet.Proofs.Parse.Lockstep
import Scriptlet.Proofs.Parse.Relabel

/-!
Recovery from errors. A semicolon outside all braces is a point from which
parsing goes on as if it began there: whatever is wrong before it, the tokens
behind it give the same statements and the same diagnostics as on their own. Up
to the semicolon the two texts are parsed in step, behind it nothing is left of
the past but the statements and diagnostics already there.
-/

namespace Scriptlet

/-- The braces that a token of this kind opens. -/
def Kind.opening : Kind → Int
  | .symbol .leftBrace => 1
  | .symbol .rightBrace => -1
  | _ => 0

/-- The braces opened less the braces closed. -/
def openBraces : List Token → Int
  | [] => 0
  | t :: tokens => t.kind.opening + openBraces tokens

/-- As many braces are closed as are opened, and none before it is opened. -/
structure BracesBalanced (tokens : List Token) : Prop where
  nonneg : ∀ front, front <+: tokens → 0 ≤ openBraces front
  total : openBraces tokens = 0

namespace Cursor

/-- A cursor on the first token of a list, before which `depth` braces were
open. -/
def onto (tokens : List Token) (endLine endColumn depth : Nat)
    (diagnostics : List Diagnostic) : Cursor where
  current := tokens.headD (.finish endLine endColumn)
  ahead := tokens.tail.headD (.finish endLine endColumn)
  rest := tokens.tail.tail
  endLine
  endColumn
  depth := depthAfter depth (tokens.headD (.finish endLine endColumn)).kind
  diagnostics

theorem start_eq_onto (tokens : List Token) (endLine endColumn : Nat) :
    start tokens endLine endColumn = onto tokens endLine endColumn 0 [] := by
  rcases tokens with _ | ⟨t, _ | ⟨u, rest⟩⟩ <;> rfl

theorem advance_onto (tokens : List Token) (endLine endColumn depth : Nat)
    (diagnostics : List Diagnostic) :
    (onto tokens endLine endColumn depth diagnostics).advance =
      onto tokens.tail endLine endColumn
        (onto tokens endLine endColumn depth diagnostics).depth diagnostics := by
  rcases tokens with _ | ⟨t, _ | ⟨u, _ | ⟨v, rest⟩⟩⟩ <;> rfl

private theorem depthAfter_eq {depth : Nat} {kind : Kind}
    (h : 0 ≤ (depth : Int) + kind.opening) :
    ((depthAfter depth kind : Nat) : Int) = depth + kind.opening := by
  unfold Kind.opening at h ⊢
  split at h
  · simp [depthAfter]
  · simp only [depthAfter]
    omega
  next hleft hright =>
    unfold depthAfter
    split
    · exact absurd rfl hleft
    · exact absurd rfl hright
    · simp

/-- Nothing is closed that was not opened, so the count of braces is exact. -/
theorem foldl_depthAfter (tokens : List Token) (depth : Nat)
    (h : ∀ front, front <+: tokens → 0 ≤ depth + openBraces front) :
    ((tokens.foldl (fun depth t => depthAfter depth t.kind) depth : Nat) : Int) =
      depth + openBraces tokens := by
  induction tokens generalizing depth with
  | nil => simp [openBraces]
  | cons t tokens ih =>
      have hstep : ((depthAfter depth t.kind : Nat) : Int) = depth + t.kind.opening := by
        refine depthAfter_eq ?_
        simpa [openBraces] using h [t] (by simp)
      have hrest (front : List Token) (hfront : front <+: tokens) :
          0 ≤ ((depthAfter depth t.kind : Nat) : Int) + openBraces front := by
        have hlonger := h (t :: front) (List.cons_prefix_cons.mpr ⟨rfl, hfront⟩)
        simp only [openBraces] at hlonger
        omega
      rw [List.foldl_cons, ih _ hrest, hstep]
      simp only [openBraces]
      omega

end Cursor

/-- The semicolon `t` outside all braces, the last token in one text and followed
by more in the other. -/
def Barrier.ofTokens (t : Token) (ht : t.kind = .symbol .semicolon) (more : List Token)
    (line column line' column' : Nat) : Barrier where
  first := .onto [t] line column 0 []
  second := .onto (t :: more) line' column' 0 []
  current_eq := rfl
  semicolon := ht
  first_depth := by simp [Cursor.onto, ht, Cursor.depthAfter]
  second_depth := by simp [Cursor.onto, ht, Cursor.depthAfter]

theorem Barrier.ofTokens_twin {t : Token} (ht : t.kind = .symbol .semicolon)
    (more : List Token) (line column line' column' : Nat) (tokens : List Token)
    (depth : Nat) (hfinish : ∀ u ∈ tokens, u.kind ≠ .finish)
    (hdepth : tokens.foldl (fun depth u => Cursor.depthAfter depth u.kind) depth = 0) :
    (Barrier.ofTokens t ht more line column line' column').Twin tokens.length
      (.onto (tokens ++ [t]) line column depth [])
      (.onto (tokens ++ t :: more) line' column' depth []) := by
  induction tokens generalizing depth with
  | nil =>
      subst hdepth
      exact .here []
  | cons u tokens ih =>
      refine .before rfl ?_ rfl rfl (hfinish u (by simp)) ?_
      · cases tokens <;> rfl
      · rw [Cursor.advance_onto, Cursor.advance_onto]
        exact ih (Cursor.depthAfter depth u.kind) (fun v hv => hfinish v (by simp [hv]))
          hdepth

/-- Behind the barrier a cursor is as on the first token of what follows, but for
the diagnostics. -/
theorem Barrier.ofTokens_advance {t : Token} (ht : t.kind = .symbol .semicolon)
    (more : List Token) (line column line' column' : Nat) (past : List Diagnostic) :
    ({ (Barrier.ofTokens t ht more line column line' column').second with
      diagnostics := past } : Cursor).advance =
        Relabelling.identity.cursor past (.onto more line' column' 0 []) := by
  have hdepth : (Cursor.onto (t :: more) line' column' 0 past).depth = 0 := by
    simp [Cursor.onto, ht, Cursor.depthAfter]
  calc
    _ = (Cursor.onto (t :: more) line' column' 0 past).advance := rfl
    _ = .onto more line' column' 0 past := by
      rw [Cursor.advance_onto, hdepth, List.tail_cons]
    _ = Relabelling.identity.cursor past (.onto more line' column' 0 []) := by
      simp [Relabelling.cursor, Relabelling.identity, Cursor.onto, Token.finish]

namespace Parse

variable {nested : Nested}

/-- Any number of turns beyond the tokens left gives the same statements. -/
theorem programStatements_fuel {limit : Nat}
    (hnested : ∀ strength c, Parsed.Orderly limit c (nested strength c))
    {fuel fuel' : Nat} (read : List Node) {c : Cursor} (hfuel : c.left < fuel)
    (hfuel' : c.left < fuel') :
    programStatements nested fuel read c = programStatements nested fuel' read c := by
  induction fuel generalizing fuel' read c with
  | zero => omega
  | succ fuel ih =>
      obtain ⟨fuel', rfl⟩ : ∃ k, fuel' = k + 1 := ⟨fuel' - 1, by omega⟩
      simp only [programStatements, current_bind, ite_run, pure_run]
      split
      next => rfl
      next hcurrent =>
        have hpos := Cursor.left_pos_of_current hcurrent
        rw [bind_run, bind_run]
        cases hfound : recovering 0 (statement nested) c with
        | done found c₁ =>
            have hlt := (recovering_reach hnested hfound).left_advance_lt hpos
            exact ih _ (by omega) (by omega)
        | refused c₁ => rfl
        | tooDeep c₁ => rfl

/-- The statements read before stand in front of the ones read next. -/
theorem programStatements_read (fuel : Nat) (read : List Node) (c : Cursor) :
    programStatements nested fuel read c =
      (programStatements nested fuel [] c).map (read.reverse ++ ·) := by
  induction fuel generalizing read c with
  | zero => rfl
  | succ fuel ih =>
      simp only [programStatements, current_bind, ite_run, pure_run]
      split
      next => simp [Parsed.map]
      next =>
        rw [bind_run, bind_run]
        cases recovering 0 (statement nested) c with
        | done found c₁ =>
            simp only [advance_bind]
            rw [ih (found.toList ++ read), ih (found.toList ++ [])]
            cases programStatements nested fuel [] c₁.advance with
            | done statements c₂ => simp [Parsed.map]
            | refused c₂ => rfl
            | tooDeep c₂ => rfl
        | refused c₁ => rfl
        | tooDeep c₁ => rfl

/-- Up to the barrier, where the first text ends, the runs give up together or
have read the same statements; behind it the second goes on alone. -/
theorem programStatements_joined {b : Barrier}
    (hnested : ∀ strength n c c', b.Twin n c c' →
      b.Paired 1 n (nested strength c) (nested strength c'))
    (hend : b.first.ahead.kind = .finish) {n fuel fuel' : Nat} (read : List Node)
    {c c' : Cursor} (h : b.Twin n c c') (hfuel : n + 1 < fuel)
    (hfuel' : n + b.second.left < fuel') :
    (∃ after after', programStatements nested fuel read c = .tooDeep after ∧
      programStatements nested fuel' read c' = .tooDeep after' ∧
      after'.diagnostics = after.diagnostics) ∨
    ∃ found after rest, programStatements nested fuel read c = .done found.reverse after ∧
      b.second.left ≤ rest ∧
      programStatements nested fuel' read c' = programStatements nested rest found
        ({ b.second with diagnostics := after.diagnostics } : Cursor).advance := by
  induction fuel generalizing fuel' read n c c' with
  | zero => omega
  | succ fuel ih =>
      obtain ⟨fuel', rfl⟩ : ∃ k, fuel' = k + 1 := ⟨fuel' - 1, by omega⟩
      have hstep := recovering_paired hnested 0 h
      have hnever := recovering_ne_refused ((0 : Nat) : Int) (statement nested) c
      simp only [programStatements, current_bind, ite_run, h.current_eq, h.ne_finish,
        if_false]
      rw [bind_run, bind_run]
      revert hstep hnever
      generalize recovering ((0 : Nat) : Int) (statement nested) c = o
      generalize recovering ((0 : Nat) : Int) (statement nested) c' = o'
      intro hstep hnever
      cases hstep with
      | @done found m c₁ c₁' h₁ _ hhigh =>
          simp only [advance_bind]
          cases m with
          | zero =>
              right
              obtain ⟨hahead, hsecond⟩ := h₁.landing
              obtain ⟨fuel, rfl⟩ : ∃ k, fuel = k + 1 := ⟨fuel - 1, by omega⟩
              refine ⟨found.toList ++ read, c₁.advance, fuel', ?_, by omega, ?_⟩
              · simp only [programStatements, current_bind, ite_run, pure_run,
                  Cursor.advance_current, hahead, hend, if_true]
              · rw [Cursor.advance_diagnostics, hsecond]
          | succ m => exact ih _ h₁.advance (by omega) (by omega)
      | @refused m c₁ c₁' h₁ _ => exact absurd rfl (hnever c₁)
      | @tooDeep c₁ c₁' hdiagnostics => exact .inl ⟨c₁, c₁', rfl, rfl, hdiagnostics⟩

/-- Diagnostics from before stay in front and change nothing else. -/
theorem programStatements_past (levels fuel : Nat) (read : List Node)
    (past : List Diagnostic) (c : Cursor) :
    programStatements (expression levels) fuel read (Relabelling.identity.cursor past c) =
      Relabelling.identity.outcome past id
        (programStatements (expression levels) fuel read c) := by
  have hnodes : Relabelling.identity.nodes = id :=
    funext Relabelling.identity_nodes
  have h : programStatements (expression levels) fuel (Relabelling.identity.nodes read)
      (Relabelling.identity.cursor past c) = _ :=
    programStatements_relabel (expression_relabel levels) fuel read c
  rwa [hnodes] at h

/-- What was read and recorded before a cursor does not matter for what is read
from there on. -/
theorem programStatements_resume (levels : Nat) {fuel : Nat} (read : List Node)
    (past : List Diagnostic) {c : Cursor}
    (hfuel : (Relabelling.identity.cursor past c).left < fuel) :
    programStatements (expression levels) fuel read (Relabelling.identity.cursor past c) =
      (Relabelling.identity.outcome past id
        (programStatements (expression levels) c.turns [] c)).map (read.reverse ++ ·) := by
  have hturns := Cursor.left_le_turns (Relabelling.identity.cursor past c)
  calc
    _ = programStatements (expression levels) c.turns read
          (Relabelling.identity.cursor past c) :=
      programStatements_fuel (expression_orderly levels) read hfuel
        (by rwa [Relabelling.cursor_turns] at hturns)
    _ = (programStatements (expression levels) c.turns []
          (Relabelling.identity.cursor past c)).map (read.reverse ++ ·) :=
      programStatements_read _ _ _
    _ = _ := by rw [programStatements_past]

end Parse

namespace Reading

/-- Two texts read one after the other. -/
def append : Reading → Reading → Reading
  | .parsed p ds, .parsed q es => .parsed (.program (p.statements ++ q.statements)) (ds ++ es)
  | .parsed _ ds, .tooDeep es => .tooDeep (ds ++ es)
  | .tooDeep ds, _ => .tooDeep ds

theorem append_empty (levels : Nat) (c : Cursor) :
    (ofCursor levels c).append (.parsed (.program []) []) = ofCursor levels c := by
  rw [ofCursor_eq]
  cases Parse.programStatements (Parse.expression levels) c.turns [] c <;>
    simp [ofStatements, append, Node.statements]

/-- Reading on behind statements and diagnostics that are already there. -/
theorem ofStatements_past (front : List Node) (past : List Diagnostic)
    (o : Parsed (List Node)) (hnever : ∀ c, o ≠ .refused c) :
    ofStatements ((Relabelling.identity.outcome past id o).map (front ++ ·)) =
      (parsed (.program front) past).append (ofStatements o) := by
  have hdiagnostics : Relabelling.identity.diagnostic = id :=
    funext Relabelling.identity_diagnostic
  cases o with
  | done statements c =>
      simp [Relabelling.outcome, Parsed.map, ofStatements, append, Node.statements,
        Relabelling.cursor, hdiagnostics]
  | refused c => exact absurd rfl (hnever c)
  | tooDeep c =>
      simp [Relabelling.outcome, Parsed.map, ofStatements, append, Relabelling.cursor,
        hdiagnostics]

/-- The texts before and behind a semicolon outside all braces, for any end
positions. -/
theorem ofCursor_joined (levels : Nat) {front more : List Token} {t : Token}
    (hfinish : ∀ u ∈ front, u.kind ≠ .finish) (hbraces : BracesBalanced front)
    (ht : t.kind = .symbol .semicolon) (line column line' column' : Nat) :
    ofCursor levels (.start (front ++ t :: more) line' column') =
      (ofCursor levels (.start (front ++ [t]) line column)).append
        (ofCursor levels (.start more line' column')) := by
  let b := Barrier.ofTokens t ht more line column line' column'
  let first : Cursor := .onto (front ++ [t]) line column 0 []
  let second : Cursor := .onto (front ++ t :: more) line' column' 0 []
  let behind : Cursor := .onto more line' column' 0 []
  have hdepth : front.foldl (fun depth u => Cursor.depthAfter depth u.kind) 0 = 0 := by
    have hcount := Cursor.foldl_depthAfter front 0 fun p hp => by
      have hp := hbraces.nonneg p hp
      omega
    rw [hbraces.total] at hcount
    omega
  have htwin : b.Twin front.length first second :=
    Barrier.ofTokens_twin ht more line column line' column' front 0 hfinish hdepth
  have hleft := htwin.add_left_le
  have hpos : 0 < b.first.left := Cursor.left_pos_of_current (by simp [b.semicolon])
  have hpos' : 0 < b.second.left :=
    Cursor.left_pos_of_current (by simp [b.current_eq, b.semicolon])
  have hturns := Cursor.left_le_turns first
  have hturns' := Cursor.left_le_turns second
  have hjoined := Parse.programStatements_joined (Parse.expression_paired levels) rfl []
    htwin (show front.length + 1 < first.turns by omega)
    (show front.length + b.second.left < second.turns by omega)
  have hnever := Parse.programStatements_ne_refused levels behind
  simp only [Cursor.start_eq_onto, ofCursor_eq]
  rcases hjoined with ⟨after, after', hfirst, hsecond, hsame⟩ |
    ⟨found, after, rest, hfirst, hrest, hsecond⟩
  · rw [hfirst, hsecond, ofStatements, ofStatements, append, hsame]
  · have hmove := Barrier.ofTokens_advance ht more line column line' column' after.diagnostics
    have hfuel := Cursor.left_advance_lt
      (c := ({ b.second with diagnostics := after.diagnostics } : Cursor)) hpos'
    rw [hmove] at hsecond hfuel
    rw [hfirst, hsecond, Parse.programStatements_resume levels found _
      (Nat.lt_of_lt_of_le hfuel hrest), ofStatements_past _ _ _ hnever]
    rfl

/-- A semicolon outside all braces is a recovery point: whatever stands before
it, if its braces are balanced, the statements and diagnostics of the whole are
those up to the semicolon followed by those of the tokens behind it. With more
levels than tokens all three texts are parsed to their ends. -/
theorem ofTokens_append_semicolon (levels : Nat) (front more : List Token) (t : Token)
    (hfinish : ∀ u ∈ front, u.kind ≠ .finish) (hbraces : BracesBalanced front)
    (ht : t.kind = .symbol .semicolon) :
    ofTokens levels (front ++ [t] ++ more) =
        (ofTokens levels (front ++ [t])).append (ofTokens levels more) ∧
      ((front ++ [t] ++ more).length < levels →
        ∃ statements diagnostics statements' diagnostics',
          ofTokens levels (front ++ [t]) = .parsed (.program statements) diagnostics ∧
          ofTokens levels more = .parsed (.program statements') diagnostics' ∧
          ofTokens levels (front ++ [t] ++ more) =
            .parsed (.program (statements ++ statements'))
              (diagnostics ++ diagnostics')) := by
  have happend : ofTokens levels (front ++ [t] ++ more) =
      (ofTokens levels (front ++ [t])).append (ofTokens levels more) := by
    cases more with
    | nil =>
        rw [List.append_nil]
        exact (append_empty levels _).symm
    | cons u more =>
        have hend : Token.finishOf (front ++ t :: u :: more) =
            Token.finishOf (u :: more) := by
          simp [Token.finishOf, List.getLast?_append, List.getLast?_cons]
        rw [List.append_assoc, List.singleton_append]
        simp only [ofTokens, Cursor.ofTokens, hend]
        exact ofCursor_joined levels hfinish hbraces ht _ _ _ _
  refine ⟨happend, fun hlevels => ?_⟩
  simp only [List.length_append] at hlevels
  obtain ⟨statements, diagnostics, hfront⟩ :=
    ofTokens_parsed (show (front ++ [t]).length < levels by
      simp only [List.length_append]
      omega)
  obtain ⟨statements', diagnostics', hmore⟩ :=
    ofTokens_parsed (show more.length < levels by omega)
  refine ⟨statements, diagnostics, statements', diagnostics', hfront, hmore, ?_⟩
  rw [happend, hfront, hmore]
  rfl

/-- A name is missing behind the keyword, and the brace there is left over. -/
def brokenBinding : List Token :=
  [⟨.keyword .letWord, "let", 1, 1⟩, ⟨.symbol .leftBrace, "\x7b", 1, 5⟩,
    ⟨.symbol .plus, "+", 1, 6⟩, ⟨.symbol .rightBrace, "\x7d", 1, 7⟩]

theorem brokenBinding_append_semicolon :
    BracesBalanced brokenBinding ∧
      ofTokens 9 (brokenBinding ++ [⟨.symbol .semicolon, ";", 1, 8⟩] ++
          [⟨.ident, "x", 1, 10⟩]) =
        .parsed (.program [.expression ⟨.ident, "x", 1, 10⟩
          (.ident ⟨⟨.ident, "x", 1, 10⟩, "x"⟩)])
          [.expected .ident ⟨.symbol .leftBrace, "\x7b", 1, 5⟩] := by
  have hbraces : BracesBalanced brokenBinding := by
    refine ⟨fun p hp => ?_, rfl⟩
    simp only [brokenBinding, List.prefix_cons_iff, List.prefix_nil] at hp
    rcases hp with rfl | ⟨_, rfl, rfl | ⟨_, rfl, rfl | ⟨_, rfl, rfl | ⟨_, rfl, rfl⟩⟩⟩⟩ <;>
      decide
  refine ⟨hbraces, ?_⟩
  rw [(ofTokens_append_semicolon 9 brokenBinding _ _ (by decide) hbraces rfl).1]
  rfl

end Reading

end Scriptlet
