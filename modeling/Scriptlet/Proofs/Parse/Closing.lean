import Scriptlet.Proofs.Grammar.Position
import Scriptlet.Proofs.Parse.Confined
import Scriptlet.Proofs.Parse.Recovery

/-!
Where a block ends. Counting braces from an opening brace on, the first place at which as
many have been closed as opened holds the brace that closes it. A parser on the opening
brace reads the block up to exactly there, whatever is wrong in between, and refuses the
block only if there is no such place, when it has come to the end of all tokens.
-/

namespace Scriptlet

/-- The brace at place `i` is closed at place `j`: up to there as many braces are closed
as opened from `i` on, and nowhere before. -/
structure ClosedAt (tokens : List Token) (i j : Nat) : Prop where
  lt : i < j
  brace : ∃ t, tokens[j]? = some t ∧ t.kind = .symbol .rightBrace
  balanced : openBraces ((tokens.drop i).take (j + 1 - i)) = 0
  unbalanced : ∀ k, i ≤ k → k < j → 0 < openBraces ((tokens.drop i).take (k + 1 - i))

theorem ClosedAt.unique {tokens : List Token} {i j k : Nat} (hj : ClosedAt tokens i j)
    (hk : ClosedAt tokens i k) : j = k := by
  have hnot {a b : Nat} (ha : ClosedAt tokens i a) (hb : ClosedAt tokens i b) : ¬ a < b := by
    intro hlt
    have hpos := hb.unbalanced a (Nat.le_of_lt ha.lt) hlt
    have hzero := ha.balanced
    omega
  have hle := hnot hj hk
  have hge := hnot hk hj
  omega

theorem openBraces_append (ts us : List Token) :
    openBraces (ts ++ us) = openBraces ts + openBraces us := by
  induction ts with
  | nil => simp [openBraces]
  | cons t ts ih =>
      simp only [List.cons_append, openBraces, ih]
      omega

/-- Behind the opening brace one brace more is closed than opened, for the first time. -/
theorem closedAt_iff {tokens inner : List Token} {i n : Nat} {opening : Token}
    (htokens : tokens.drop i = opening :: inner)
    (hopening : opening.kind = .symbol .leftBrace) :
    ClosedAt tokens i (i + n) ↔
      openBraces (inner.take n) = -1 ∧ (∀ k, k < n → 0 ≤ openBraces (inner.take k)) ∧
        ∃ t, tokens[i + n]? = some t ∧ t.kind = .symbol .rightBrace := by
  have hopens (k : Nat) :
      openBraces ((tokens.drop i).take (k + 1)) = 1 + openBraces (inner.take k) := by
    simp [htokens, openBraces, hopening, Kind.opening]
  have hcount (k : Nat) :
      openBraces ((tokens.drop i).take (i + k + 1 - i)) = 1 + openBraces (inner.take k) := by
    rw [show i + k + 1 - i = k + 1 by omega, hopens]
  constructor
  · intro h
    have hbalanced := h.balanced
    rw [hcount] at hbalanced
    refine ⟨by omega, ?_, h.brace⟩
    intro k hk
    have hbefore := h.unbalanced (i + k) (by omega) (by omega)
    rw [hcount] at hbefore
    omega
  · rintro ⟨hclosed, hopen, hbrace⟩
    constructor
    · rcases Nat.eq_zero_or_pos n with rfl | hpos
      · simp [openBraces] at hclosed
      · omega
    · exact hbrace
    · rw [hcount]
      omega
    · intro k hik hkj
      obtain ⟨d, rfl⟩ := Nat.exists_eq_add_of_le hik
      have hbefore := hopen d (by omega)
      rw [hcount]
      omega

namespace Cursor

variable {ts : List Token} {line column before depth : Nat} {diagnostics : List Diagnostic}

/-- Among open braces the next token changes the count by what it opens. -/
theorem advance_onto_depth (hpos : 0 < (onto ts line column before diagnostics).depth) :
    ((onto ts line column before diagnostics).advance.depth : Int) =
      (onto ts line column before diagnostics).depth + openBraces (ts.tail.take 1) := by
  rw [advance_onto]
  generalize (onto ts line column before diagnostics).depth = count at hpos
  cases ts.tail with
  | nil => simp [onto, openBraces, depthAfter, Token.finish]
  | cons t rest =>
      apply foldl_depthAfter [t]
      intro front hfront
      rcases List.prefix_cons_iff.mp hfront with rfl | ⟨others, rfl, hothers⟩
      · simp [openBraces]
      · obtain rfl := List.prefix_nil.mp hothers
        simp only [openBraces, Kind.opening]
        split <;> omega

/-- The way of a parser that stays among `depth` braces, told by the tokens that it has
before it: by how many it has moved on, the braces that are open then, and that at least
`depth` were open before. -/
theorem Inside.count {c c' : Cursor} (h : c.Inside depth c') (hpos : 0 < depth)
    (hc : c = onto ts line column before diagnostics) :
    ∃ n count found, c' = onto (ts.drop n) line column count found ∧
      (c'.depth : Int) = c.depth + openBraces (ts.tail.take n) ∧
      ∀ k, k < n → (depth : Int) ≤ c.depth + openBraces (ts.tail.take k) := by
  induction h with
  | refl => exact ⟨0, before, diagnostics, hc, by simp [openBraces], by omega⟩
  | record _ d ih =>
      obtain ⟨n, count, found, rfl, hdepth, hopen⟩ := ih
      exact ⟨n, count, found ++ [d], rfl, hdepth, hopen⟩
  | advance _ hstill ih =>
      obtain ⟨n, count, found, rfl, hdepth, hopen⟩ := ih
      have hmove := advance_onto_depth (Nat.lt_of_lt_of_le hpos hstill)
      have htail : (ts.drop n).tail = ts.tail.drop n := by
        rw [List.tail_drop, ← List.drop_one, List.drop_drop, Nat.add_comm]
      refine ⟨n + 1, (onto (ts.drop n) line column count found).depth, found, ?_, ?_, ?_⟩
      · rw [advance_onto, List.tail_drop]
      · rw [hmove, hdepth, htail, List.take_add, openBraces_append]
        omega
      · intro k hk
        rcases Nat.lt_or_eq_of_le (Nat.le_of_lt_succ hk) with hlt | rfl
        · exact hopen k hlt
        · rw [← hdepth]
          omega

/-- Wherever a parser gets to in a list of tokens, it has the last of them before it. -/
theorem Reach.onto {tokens : List Token} {c : Cursor}
    (h : (start tokens line column).Reach c) :
    ∃ i count found, c = Cursor.onto (tokens.drop i) line column count found := by
  induction h with
  | refl => exact ⟨0, 0, [], start_eq_onto tokens line column⟩
  | record _ d ih =>
      obtain ⟨i, count, found, rfl⟩ := ih
      exact ⟨i, count, found ++ [d], rfl⟩
  | advance _ ih =>
      obtain ⟨i, count, found, rfl⟩ := ih
      rw [advance_onto, List.tail_drop]
      exact ⟨i + 1, _, found, rfl⟩

theorem standing_onto (h : ∀ t ∈ ts, t.kind ≠ .finish) :
    (onto ts line column before diagnostics).standing = ts := by
  have hstart := standing_start ts line column h
  rw [start_eq_onto] at hstart
  exact hstart

end Cursor

/-- The words for a closing brace that the end of all tokens stands in place of. -/
theorem Diagnostic.message_missedBrace {t : Token} (h : t.kind = .finish) :
    (expected (.symbol .rightBrace) t).message =
      "expected next token type \"RBRACE\", actual \"EOF\" " ++ t.place := by
  have hwords : "expected next token type \"" ++ (Kind.symbol .rightBrace).name ++
      "\", actual \"" ++ Kind.finish.name ++ "\" " =
        "expected next token type \"RBRACE\", actual \"EOF\" " := by decide +kernel
  calc
    _ = "expected next token type \"" ++ (Kind.symbol .rightBrace).name ++
        "\", actual \"" ++ t.kind.name ++ "\" " ++ t.place := by
      unfold message
      rfl
    _ = _ := by rw [h, hwords]

namespace Parse

open Parsed

variable {tokens : List Token} {i line column before : Nat}
  {diagnostics : List Diagnostic}

/-- A block is read up to its closing brace, or to the end if it has none. -/
theorem block_counted (levels : Nat) {c : Cursor}
    (hc : c = .onto (tokens.drop i) line column before diagnostics)
    (hfinish : ∀ t ∈ tokens, t.kind ≠ .finish) (hkind : c.current.kind = .symbol .leftBrace) :
    (block (expression levels) c).Meets
      (fun _ c' => ∃ j count found, ClosedAt tokens i j ∧
        c' = .onto (tokens.drop j) line column count found ∧ c'.depth + 1 = c.depth)
      (fun c' => (∀ j, ¬ ClosedAt tokens i j) ∧ c'.current.kind = .finish ∧
        c'.diagnostics.getLast? = some (.expected (.symbol .rightBrace) c'.current))
      fun _ => True := by
  obtain ⟨opening, inner, htokens, hopening⟩ : ∃ opening inner,
      tokens.drop i = opening :: inner ∧ opening.kind = .symbol .leftBrace := by
    cases hdrop : tokens.drop i with
    | nil => simp [hc, hdrop, Cursor.onto, Token.finish] at hkind
    | cons t rest => exact ⟨t, rest, rfl, by simpa [hc, hdrop, Cursor.onto] using hkind⟩
  have hdepth : c.depth = before + 1 := by
    simp [hc, htokens, Cursor.onto, hopening, Cursor.depthAfter]
  have htail : (tokens.drop i).tail = inner := by rw [htokens, List.tail_cons]
  have hway := block_confined (expression_confined levels) (expression_braced levels) c
  have hend := block_closed (expression_braced levels) hdepth
  apply (hway.and hend).mono
  · rintro _ c' ⟨hinside, hlower, hbrace⟩
    obtain ⟨n, count, found, rfl, hcount, hopen⟩ := hinside.count (by omega) hc
    rw [htail] at hcount hopen
    rw [List.drop_drop] at hbrace hlower hcount ⊢
    refine ⟨i + n, count, found, ?_, rfl, by omega⟩
    apply (closedAt_iff htokens hopening).mpr
    refine ⟨by omega, fun k hk => ?_, ?_⟩
    · have hbefore := hopen k hk
      omega
    · cases hrest : tokens.drop (i + n) with
      | nil => simp [hrest, Cursor.onto, Token.finish] at hbrace
      | cons t rest =>
          refine ⟨t, ?_, by simpa [hrest, Cursor.onto] using hbrace⟩
          rw [← List.head?_drop, hrest, List.head?_cons]
  · rintro c' ⟨⟨hinside, hopen, hend, hlast⟩, _⟩
    obtain ⟨n, count, found, rfl, hcount, hbefore⟩ := hinside.count (by omega) hc
    rw [htail] at hcount hbefore
    refine ⟨?_, hend, hlast⟩
    intro j hj
    obtain ⟨d, rfl⟩ := Nat.exists_eq_add_of_le (Nat.le_of_lt hj.lt)
    obtain ⟨hclosed, -, t, ht, -⟩ := (closedAt_iff htokens hopening).mp hj
    -- No such place is among those passed, and the tokens end there.
    have hpassed : n ≤ d := by
      apply Nat.le_of_not_lt
      intro hlt
      have hstill := hbefore d hlt
      omega
    have hexhausted : tokens.drop (i + n) = [] := by
      cases hrest : tokens.drop (i + n) with
      | nil => rfl
      | cons u rest =>
          have hmem : u ∈ tokens := List.mem_of_mem_drop (by rw [hrest]; exact List.mem_cons_self)
          rw [List.drop_drop, hrest] at hend
          exact absurd hend (hfinish u hmem)
    have hshort := List.drop_eq_nil_iff.mp hexhausted
    have hlong := (List.getElem?_eq_some_iff.mp ht).1
    omega
  · exact fun _ _ => trivial

theorem block_tree (nested : Nested) (c : Cursor) :
    (block nested c).Meets (fun n _ => ∃ statements, n = .block c.current statements)
      (fun _ => True) fun _ => True := by
  simp only [block, cursor_bind, advance_bind, bind_meets]
  cases blockStatements nested c.depth c.advance.turns [] c.advance with
  | done statements c' => exact ⟨statements, rfl⟩
  | refused c' => trivial
  | tooDeep c' => trivial

theorem block_orderly (levels : Nat) (c : Cursor) :
    Orderly levels c (block (expression levels) c) := by
  simp only [block, cursor_bind, advance_bind]
  have hmoved : c.Reach c.advance := .advance .refl
  apply orderly_bind hmoved
    (blockStatements_orderly (expression_orderly levels) _ _ _ .refl (Cursor.left_le_turns _))
  intro statements c' hreach
  exact hmoved.trans hreach

/-- A parser that keeps the count of braces and has levels enough leaves the count as it
was before its first token, or refuses with at most one brace fewer. -/
theorem braced_kept {α : Type} {outcome : Parsed α} {levels depth : Nat} {c : Cursor}
    (hbraced : outcome.Braced depth) (horderly : outcome.Orderly levels c)
    (hlevels : c.left < levels) :
    outcome.Meets (fun _ c' => c'.depth = depth) (fun c' => depth ≤ c'.depth + 1)
      fun _ => False := by
  apply (hbraced.and horderly).mono
  · exact fun _ _ h => h.1
  · rintro c' ⟨hopen | hclosed, _⟩
    · omega
    · omega
  · rintro c' ⟨_, _, hlimit⟩
    omega

/-- Recovery never leaves the block it is in. Wherever in a list of tokens a parser
stands on an opening brace, and whatever follows it, the block is read up to exactly the
brace that closes it, with one brace fewer open then; if no brace closes it, it is
refused at the end, and the last thing recorded is that the brace was missed. An
expression or a statement leaves as many braces open as there were before its first
token, and one that is refused at most one fewer. -/
theorem block_ends_at_closing_brace (levels : Nat) (tokens : List Token) (c : Cursor)
    (hfinish : ∀ t ∈ tokens, t.kind ≠ .finish) (hlevels : tokens.length < levels)
    (hreach : (Cursor.ofTokens tokens).Reach c) :
    (∀ i, c.standing = tokens.drop i → c.current.kind = .symbol .leftBrace →
      (∀ j, ClosedAt tokens i j → ∃ statements after,
        block (expression levels) c = .done (.block c.current statements) after ∧
          after.standing = tokens.drop j ∧ after.depth + 1 = c.depth) ∧
      ((∀ j, ¬ ClosedAt tokens i j) → ∃ after missed,
        block (expression levels) c = .refused after ∧ after.current.kind = .finish ∧
          after.diagnostics.getLast? = some missed ∧
          missed.message = "expected next token type \"RBRACE\", actual \"EOF\" " ++
            after.current.place)) ∧
    ∀ depth, c.Before depth →
      (∀ strength, (expression levels strength c).Meets (fun _ c' => c'.depth = depth)
        (fun c' => depth ≤ c'.depth + 1) fun _ => False) ∧
      (statement (expression levels) c).Meets (fun _ c' => c'.depth = depth)
        (fun c' => depth ≤ c'.depth + 1) fun _ => False := by
  have hleft : c.left < levels :=
    Nat.lt_of_le_of_lt (Nat.le_trans hreach.left_le (Cursor.left_start_le _ _ _)) hlevels
  constructor
  · intro i hstanding hkind
    obtain ⟨place, count, found, hc⟩ := hreach.onto
    have hplace : tokens.drop place = tokens.drop i := by
      rw [← hstanding, hc, Cursor.standing_onto fun t ht => hfinish t (List.mem_of_mem_drop ht)]
    rw [hplace] at hc
    have hcounted := block_counted levels hc hfinish hkind
    have htree := block_tree (expression levels) c
    have horderly := block_orderly levels c
    cases hrun : block (expression levels) c with
    | done n after =>
        rw [hrun] at hcounted htree
        obtain ⟨j, count', found', hclosed, rfl, hdepth⟩ := hcounted
        obtain ⟨statements, rfl⟩ := htree
        constructor
        · intro k hk
          obtain rfl := hclosed.unique hk
          refine ⟨statements, _, rfl, ?_, hdepth⟩
          exact Cursor.standing_onto fun t ht => hfinish t (List.mem_of_mem_drop ht)
        · intro hnone
          exact absurd hclosed (hnone j)
    | refused after =>
        rw [hrun] at hcounted
        obtain ⟨hnone, hend, hlast⟩ := hcounted
        constructor
        · intro j hj
          exact absurd hj (hnone j)
        · intro _
          exact ⟨after, _, rfl, hend, hlast, Diagnostic.message_missedBrace hend⟩
    | tooDeep after =>
        rw [hrun] at horderly
        exact absurd horderly.2 (by omega)
  · intro depth hbefore
    constructor
    · intro strength
      exact braced_kept (expression_braced levels strength depth c hbefore)
        (expression_orderly levels strength c) hleft
    · exact braced_kept (statement_braced (expression_braced levels) hbefore)
        (statement_orderly (expression_orderly levels) .refl) hleft

/-- A block in which a binding without a name, a block of nothing but a bracket and a
parenthesis stand, and behind it another that nothing closes. -/
def brokenBlocks : List Token :=
  [⟨.symbol .leftBrace, "\x7b", 1, 1⟩, ⟨.keyword .letWord, "let", 1, 2⟩,
    ⟨.symbol .leftBrace, "\x7b", 1, 6⟩, ⟨.symbol .rightBracket, "]", 1, 7⟩,
    ⟨.symbol .rightBrace, "\x7d", 1, 8⟩, ⟨.symbol .rightParen, ")", 1, 9⟩,
    ⟨.symbol .rightBrace, "\x7d", 1, 10⟩, ⟨.symbol .leftBrace, "\x7b", 1, 11⟩]

theorem brokenBlocks_end : ClosedAt brokenBlocks 0 6 ∧ ∃ statements after,
    block (expression 9) (.ofTokens brokenBlocks) =
        .done (.block ⟨.symbol .leftBrace, "\x7b", 1, 1⟩ statements) after ∧
      after.standing = brokenBlocks.drop 6 ∧ after.depth = 0 := by
  have hclosed : ClosedAt brokenBlocks 0 6 := by
    refine ⟨by decide, ⟨_, rfl, rfl⟩, rfl, ?_⟩
    have hall : ∀ k, k < 6 → 0 < openBraces (brokenBlocks.take (k + 1)) := by decide
    exact fun k _ hk => hall k hk
  obtain ⟨statements, after, hrun, hplace, hdepth⟩ :=
    ((block_ends_at_closing_brace 9 brokenBlocks (.ofTokens brokenBlocks) (by decide)
      (by decide) .refl).1 0 rfl rfl).1 6 hclosed
  exact ⟨hclosed, statements, after, hrun, hplace, Nat.succ.inj hdepth⟩

end Parse

end Scriptlet
