import Scriptlet.Proofs.Parse.Progress

/-!
The count of open braces. A parser that is done leaves the count as it was
before its first token; one that refuses leaves it at most one lower, and then
only on the brace that closes the block around it. So a block whose statements
are recovered from whatever they hold still ends on its own closing brace.
-/

namespace Scriptlet

namespace Cursor

/-- `depth` braces were open before the current token. -/
def Before (depth : Nat) (c : Cursor) : Prop :=
  c.depth = depthAfter depth c.current.kind

/-- Moving on comes before the next token with the braces that are open now. -/
theorem before_advance (c : Cursor) : c.advance.Before c.depth := by
  simp [Before]

theorem Before.depth_eq {depth : Nat} {c : Cursor} (h : c.Before depth) {kind : Kind}
    (hkind : c.current.kind = kind) : c.depth = depthAfter depth kind :=
  hkind ▸ h

/-- At least `depth` braces are open, or the current token is the brace that
took the count just below that. -/
def Within (depth : Nat) (c : Cursor) : Prop :=
  depth ≤ c.depth ∨ c.depth + 1 = depth ∧ c.current.kind = .symbol .rightBrace

theorem Before.within {depth inner : Nat} {c : Cursor} (h : c.Before inner)
    (hle : depth ≤ inner) : c.Within depth := by
  unfold Before depthAfter at h
  split at h
  · exact .inl (by omega)
  next hkind =>
    rcases Nat.lt_or_ge c.depth depth with hlt | hge
    · rcases Nat.eq_zero_or_pos inner with hzero | hpos
      · exact .inl (by omega)
      · exact .inr ⟨by omega, hkind⟩
    · exact .inl hge
  · exact .inl (by omega)

theorem Within.of_le {depth inner : Nat} {c : Cursor} (h : c.Within inner)
    (hle : depth ≤ inner) : c.Within depth := by
  rcases h with h | ⟨h, hkind⟩
  · exact .inl (by omega)
  · rcases Nat.lt_or_ge c.depth depth with hlt | hge
    · exact .inr ⟨by omega, hkind⟩
    · exact .inl hge

/-- Skipping does not leave the block that the statement stands in. -/
theorem within_synchronize {depth : Nat} {c : Cursor} (h : c.Within depth) :
    (c.synchronize depth).Within depth := by
  have hgo (fuel : Nat) (c : Cursor) (h : c.Within depth) :
      (synchronize.go (depth : Int) fuel c).Within depth := by
    induction fuel generalizing c with
    | zero => exact h
    | succ fuel ih =>
        simp only [synchronize.go]
        split
        next => exact h
        next hgo =>
          split
          next => exact h
          next =>
            simp only [Bool.or_eq_true, decide_eq_true_eq, not_or, Int.not_lt] at hgo
            exact ih _ ((before_advance c).within (by omega))
  exact hgo _ c h

end Cursor

/-- The outcome of a parser before whose first token `depth` braces were open. -/
def Parsed.Braced {α : Type} (depth : Nat) (outcome : Parsed α) : Prop :=
  outcome.Meets (fun _ c => c.depth = depth) (fun c => c.Within depth) fun _ => True

namespace Parse

open Parsed

variable {α β : Type} {depth inner : Nat} {c : Cursor} {nested : Nested}

/-- A part that is done leaves as many braces open as there were. -/
theorem braced_bind {p : Parse α} {next : α → Parse β} (hle : depth ≤ inner)
    (hp : Braced inner (p c))
    (hnext : ∀ a c', c'.depth = inner → Braced depth (next a c')) :
    Braced depth ((p >>= next) c) := by
  unfold Braced
  rw [bind_meets]
  exact Meets.mono hp (fun a c' h => hnext a c' h) (fun c' h => h.of_le hle)
    fun _ h => h

/-- A refusal leaves at least the braces that were open before the token ahead. -/
theorem braced_expect {kind : Kind} {next : Unit → Parse α} (hle : depth ≤ c.depth)
    (hnext : c.ahead.kind = kind → Braced depth (next () c.advance)) :
    Braced depth ((expect kind >>= next) c) := by
  unfold Braced
  rw [bind_meets]
  exact expect_meets hnext fun _ => .inl hle

/-- Behind a statement a semicolon is skipped, which opens and closes nothing. -/
theorem braced_skipIf {n : Node} (h : c.depth = depth) :
    Braced depth ((do skipIf (.symbol .semicolon); return n : Parse Node) c) := by
  unfold Braced
  rw [bind_meets]
  refine skipIf_meets (fun hahead => ?_) fun _ => h
  simp [hahead, Cursor.depthAfter, h]

theorem identAhead_braced (h : c.depth = depth) : Braced depth (identAhead c) :=
  braced_expect (by omega) fun hahead => by
    simp [Braced, hahead, Cursor.depthAfter, h]

theorem moreParameters_braced (fuel : Nat) (read : List Ident) (h : c.depth = depth) :
    Braced depth (moreParameters fuel read c) := by
  induction fuel generalizing read c with
  | zero => trivial
  | succ fuel ih =>
      simp only [moreParameters, aheadIs_bind, ite_run, advance_bind, pure_run,
        decide_eq_true_eq]
      split
      next hcomma =>
        have hadvance : c.advance.depth = depth := by
          simp [hcomma, Cursor.depthAfter, h]
        exact braced_bind (Nat.le_refl _) (identAhead_braced hadvance)
          fun name c' h' => ih _ h'
      next => exact h

theorem parameters_braced (h : c.depth = depth) : Braced depth (parameters c) := by
  simp only [parameters, aheadIs_bind, ite_run, advance_bind, pure_run,
    decide_eq_true_eq]
  split
  next hclose => simp [Braced, hclose, Cursor.depthAfter, h]
  next =>
    refine braced_bind (Nat.le_refl _) (identAhead_braced h) fun first c₁ h₁ => ?_
    simp only [cursor_bind]
    refine braced_bind (Nat.le_refl _) (moreParameters_braced _ _ h₁)
      fun names c₂ h₂ => ?_
    refine braced_expect (by omega) fun hclose => ?_
    simp [Braced, hclose, Cursor.depthAfter, h₂]

/-- No operator opens or closes a brace. -/
theorem depthAfter_continues {kind : Kind} (h : continues kind = true) (depth : Nat) :
    Cursor.depthAfter depth kind = depth := by
  unfold Cursor.depthAfter
  split
  · cases h
  · cases h
  · rfl

section Nested

variable (hnested : ∀ strength depth c, Cursor.Before depth c →
  Braced depth (nested strength c))
include hnested

/-- An expression that starts behind the current token. -/
theorem advance_braced (strength : Int) (h : c.depth = depth) :
    Braced depth (nested strength c.advance) :=
  hnested strength depth c.advance (h ▸ c.before_advance)

theorem moreItems_braced (fuel : Nat) (read : List Node) (h : c.depth = depth) :
    Braced depth (moreItems nested fuel read c) := by
  induction fuel generalizing read c with
  | zero => trivial
  | succ fuel ih =>
      simp only [moreItems, aheadIs_bind, ite_run, advance_bind, pure_run,
        decide_eq_true_eq]
      split
      next hcomma =>
        have hadvance : c.advance.depth = depth := by
          simp [hcomma, Cursor.depthAfter, h]
        exact braced_bind (Nat.le_refl _) (advance_braced hnested _ hadvance)
          fun item c' h' => ih _ h'
      next => exact h

/-- Lists are closed by a parenthesis or a bracket, not by a brace. -/
theorem expressionList_braced {closing : Symbol} (h : c.depth = depth)
    (hclosing : Cursor.depthAfter depth (.symbol closing) = depth) :
    Braced depth (expressionList nested (.symbol closing) c) := by
  simp only [expressionList, aheadIs_bind, ite_run, advance_bind, pure_run,
    decide_eq_true_eq]
  split
  next hclose => simp [Braced, hclose, h, hclosing]
  next =>
    refine braced_bind (Nat.le_refl _) (advance_braced hnested _ h) fun first c₁ h₁ => ?_
    simp only [cursor_bind]
    refine braced_bind (Nat.le_refl _) (moreItems_braced hnested _ _ h₁)
      fun items c₂ h₂ => ?_
    refine braced_expect (by omega) fun hclose => ?_
    simp [Braced, hclose, h₂, hclosing]

/-- The braces of a hash are taken by its own rule; pairs stand between them. -/
theorem hashPairs_braced (fuel : Nat) (read : List (Node × Node))
    (h : c.depth = depth) : Braced depth (hashPairs nested fuel read c) := by
  induction fuel generalizing read c with
  | zero => trivial
  | succ fuel ih =>
      simp only [hashPairs, advance_bind]
      refine braced_bind (Nat.le_refl _) (advance_braced hnested _ h) fun key c₁ h₁ => ?_
      refine braced_expect (by omega) fun hcolon => ?_
      have hbehind : c₁.advance.depth = depth := by
        simp [hcolon, Cursor.depthAfter, h₁]
      simp only [advance_bind]
      refine braced_bind (Nat.le_refl _) (advance_braced hnested _ hbehind)
        fun value c₂ h₂ => ?_
      simp only [aheadIs_bind, ite_run, advance_bind, pure_run, decide_eq_true_eq]
      split
      next hcomma => exact ih _ (by simp [hcomma, Cursor.depthAfter, h₂])
      next => exact h₂

theorem hashLiteral_braced (h : c.depth = depth + 1) :
    Braced depth (hashLiteral nested c) := by
  simp only [hashLiteral, current_bind, aheadIs_bind, ite_run, advance_bind, pure_run,
    cursor_bind, decide_eq_true_eq]
  split
  next hclose => simp [Braced, hclose, Cursor.depthAfter, h]
  next =>
    refine braced_bind (Nat.le_succ _) (hashPairs_braced hnested _ _ h)
      fun pairs c₁ h₁ => ?_
    refine braced_expect (by omega) fun hclose => ?_
    simp [Braced, hclose, Cursor.depthAfter, h₁]

theorem bindingStatement_braced (h : c.depth = depth) :
    Braced depth (bindingStatement nested c) := by
  simp only [bindingStatement, current_bind]
  refine braced_bind (Nat.le_refl _) (identAhead_braced h) fun name c₁ h₁ => ?_
  refine braced_expect (by omega) fun hassign => ?_
  have hbehind : c₁.advance.depth = depth := by
    simp [hassign, Cursor.depthAfter, h₁]
  simp only [advance_bind]
  exact braced_bind (Nat.le_refl _) (advance_braced hnested _ hbehind)
    fun value c₂ h₂ => braced_skipIf h₂

theorem returnStatement_braced (h : c.depth = depth) :
    Braced depth (returnStatement nested c) := by
  simp only [returnStatement, current_bind, cursor_bind, ite_run, advance_bind]
  split
  next => exact braced_skipIf h
  next =>
    exact braced_bind (Nat.le_refl _) (advance_braced hnested _ h)
      fun value c₁ h₁ => braced_skipIf h₁

/-- A statement that is done has closed every brace it has opened. -/
theorem statement_braced (h : c.Before depth) : Braced depth (statement nested c) := by
  rw [statement_run]
  split
  next hkind => exact bindingStatement_braced hnested (h.depth_eq hkind)
  next hkind => exact returnStatement_braced hnested (h.depth_eq hkind)
  next =>
    simp only [expressionStatement, current_bind]
    exact braced_bind (Nat.le_refl _) (hnested _ _ _ h) fun value c₁ h₁ => braced_skipIf h₁

/-- Recovery inside a block stays inside it. -/
theorem recovering_within (hle : depth ≤ inner) (h : c.Before inner) :
    (recovering depth (statement nested) c).Meets (fun _ c' => c'.Within depth)
      (fun _ => False) fun _ => True := by
  have hstatement := statement_braced hnested h
  unfold recovering
  revert hstatement
  cases statement nested c with
  | done n after =>
      intro hdone
      have hwithin : after.Within depth := .inl (Nat.le_trans hle (Nat.le_of_eq hdone.symm))
      simp only
      split
      · exact hwithin
      · exact hwithin
  | refused after =>
      intro hrefused
      exact Cursor.within_synchronize (hrefused.of_le hle)
  | tooDeep after => exact fun _ => trivial

/-- The statements of a block opened among `depth` braces, its own included,
end on the brace that closes it. -/
theorem blockStatements_closed (fuel : Nat) (read : List Node)
    (h : (∃ inner, depth ≤ inner ∧ c.Before inner) ∨
      c.depth + 1 = depth ∧ c.current.kind = .symbol .rightBrace) :
    (blockStatements nested depth fuel read c).Meets
      (fun _ c' => c'.depth + 1 = depth ∧ c'.current.kind = .symbol .rightBrace)
      (fun c' => c'.Within depth) fun _ => True := by
  induction fuel generalizing read c with
  | zero => trivial
  | succ fuel ih =>
      simp only [blockStatements, cursor_bind, ite_run, pure_run, refuse_bind]
      split
      next hlow =>
        rcases h with ⟨inner, hle, hbefore⟩ | hclosed
        · rcases hbefore.within hle with hopen | hclosed
          · omega
          · exact hclosed
        · exact hclosed
      next hopen =>
        obtain ⟨inner, hle, hbefore⟩ : ∃ inner, depth ≤ inner ∧ c.Before inner :=
          h.resolve_right fun hclosed => hopen (by omega)
        split
        next => exact .inl (Nat.le_of_not_lt hopen)
        next =>
          rw [bind_meets]
          refine (recovering_within hnested hle hbefore).mono (fun found c₁ h₁ => ?_)
            (fun _ h => h.elim) fun _ h => h
          simp only [cursor_bind, ite_run, advance_bind]
          split
          next hinside => exact ih _ (.inl ⟨c₁.depth, hinside, c₁.before_advance⟩)
          next houtside => exact ih _ (.inr (h₁.resolve_left houtside))

/-- A block is over on its closing brace. -/
theorem block_closed (h : c.depth = depth + 1) :
    (block nested c).Meets
      (fun _ c' => c'.depth = depth ∧ c'.current.kind = .symbol .rightBrace)
      (fun c' => c'.Within depth) fun _ => True := by
  simp only [block, cursor_bind, advance_bind, bind_meets]
  refine (blockStatements_closed hnested _ _
    (.inl ⟨c.depth, Nat.le_refl _, c.before_advance⟩)).mono ?_ ?_ fun _ h => h
  · rintro statements c' ⟨hdepth, hkind⟩
    exact ⟨by omega, hkind⟩
  · exact fun c' h' => h'.of_le (by omega)

theorem blockAhead_braced (h : c.depth = depth) : Braced depth (blockAhead nested c) := by
  refine braced_expect (by omega) fun hopen => ?_
  have hdepth : c.advance.depth = depth + 1 := by
    simp [hopen, Cursor.depthAfter, h]
  exact (block_closed hnested hdepth).mono (fun _ _ h => h.1) (fun _ h => h) fun _ h => h

/-- The blocks of a conditional are closed one by one. -/
theorem conditional_braced (h : c.depth = depth) :
    Braced depth (conditional nested c) := by
  simp only [conditional, current_bind]
  refine braced_expect (by omega) fun hopen => ?_
  have hbehind : c.advance.depth = depth := by
    simp [hopen, Cursor.depthAfter, h]
  simp only [advance_bind]
  refine braced_bind (Nat.le_refl _) (advance_braced hnested _ hbehind)
    fun condition c₁ h₁ => ?_
  refine braced_expect (by omega) fun hclose => ?_
  have hbehind₁ : c₁.advance.depth = depth := by
    simp [hclose, Cursor.depthAfter, h₁]
  refine braced_bind (Nat.le_refl _) (blockAhead_braced hnested hbehind₁)
    fun consequence c₂ h₂ => ?_
  simp only [aheadIs_bind, ite_run, advance_bind, pure_run, decide_eq_true_eq]
  split
  next helse =>
    have hbehind₂ : c₂.advance.depth = depth := by
      simp [helse, Cursor.depthAfter, h₂]
    exact braced_bind (Nat.le_refl _) (blockAhead_braced hnested hbehind₂)
      fun alternative c₃ h₃ => h₃
  next => exact h₂

theorem functionLiteral_braced (h : c.depth = depth) :
    Braced depth (functionLiteral nested c) := by
  simp only [functionLiteral, current_bind]
  refine braced_expect (by omega) fun hopen => ?_
  have hbehind : c.advance.depth = depth := by
    simp [hopen, Cursor.depthAfter, h]
  refine braced_bind (Nat.le_refl _) (parameters_braced hbehind) fun names c₁ h₁ => ?_
  exact braced_bind (Nat.le_refl _) (blockAhead_braced hnested h₁) fun body c₂ h₂ => h₂

theorem grouped_braced (h : c.depth = depth) : Braced depth (grouped nested c) := by
  simp only [grouped, advance_bind]
  refine braced_bind (Nat.le_refl _) (advance_braced hnested _ h) fun inner c₁ h₁ => ?_
  refine braced_expect (by omega) fun hclose => ?_
  simp [Braced, hclose, Cursor.depthAfter, h₁]

/-- Hashes, blocks and groups alike: what begins an expression is closed when it is done. -/
theorem operand_braced (h : c.Before depth) : Braced depth (operand nested c) := by
  rw [operand_run]
  split
  next hkind => exact h.depth_eq hkind
  next hkind =>
    have hdepth : c.depth = depth := h.depth_eq hkind
    rw [integerLiteral_run]
    split
    · split
      · exact hdepth
      · exact .inl (Nat.le_of_eq hdepth.symm)
    · exact .inl (Nat.le_of_eq hdepth.symm)
  next hkind => exact h.depth_eq hkind
  next hkind => exact h.depth_eq hkind
  next hkind => exact h.depth_eq hkind
  case h_6 hkind | h_7 hkind | h_8 hkind =>
    have hdepth : c.depth = depth := h.depth_eq hkind
    simp only [unary, current_bind, advance_bind]
    exact braced_bind (Nat.le_refl _) (advance_braced hnested _ hdepth)
      fun operand c₁ h₁ => h₁
  next hkind => exact grouped_braced hnested (h.depth_eq hkind)
  next hkind => exact conditional_braced hnested (h.depth_eq hkind)
  next hkind => exact functionLiteral_braced hnested (h.depth_eq hkind)
  next hkind =>
    have hdepth : c.depth = depth := h.depth_eq hkind
    simp only [arrayLiteral, current_bind]
    exact braced_bind (Nat.le_refl _) (expressionList_braced hnested hdepth rfl)
      fun elements c₁ h₁ => h₁
  next hkind => exact hashLiteral_braced hnested (h.depth_eq hkind)
  next => exact h.within (Nat.le_refl _)

theorem continuation_braced (left : Node) (h : c.depth = depth) :
    Braced depth (continuation nested left c) := by
  rw [continuation_run]
  split
  next =>
    simp only [callRest, current_bind]
    exact braced_bind (Nat.le_refl _) (expressionList_braced hnested h rfl)
      fun arguments c₁ h₁ => h₁
  next =>
    simp only [indexRest, current_bind, advance_bind]
    refine braced_bind (Nat.le_refl _) (advance_braced hnested _ h) fun place c₁ h₁ => ?_
    refine braced_expect (by omega) fun hclose => ?_
    simp [Braced, hclose, Cursor.depthAfter, h₁]
  next =>
    simp only [infixRest, current_bind, advance_bind]
    exact braced_bind (Nat.le_refl _) (advance_braced hnested _ h) fun right c₁ h₁ => h₁

theorem climb_braced (strength : Int) (fuel : Nat) (left : Node) (h : c.depth = depth) :
    Braced depth (climb nested strength fuel left c) := by
  induction fuel generalizing left c with
  | zero => trivial
  | succ fuel ih =>
      simp only [climb, cursor_bind, ite_run, pure_run, advance_bind]
      split
      next => exact h
      next hgo =>
        simp only [Bool.or_eq_true, Bool.not_eq_true', not_or, Bool.not_eq_false] at hgo
        have hbehind : c.advance.depth = depth := by
          rw [Cursor.advance_depth, depthAfter_continues hgo.2, h]
        exact braced_bind (Nat.le_refl _) (continuation_braced hnested left hbehind)
          fun longer c₁ h₁ => ih longer h₁

end Nested

/-- An expression of any depth of nesting keeps the count of open braces. -/
theorem expression_braced (levels : Nat) (strength : Int) (depth : Nat) (c : Cursor)
    (h : c.Before depth) : Braced depth (expression levels strength c) := by
  induction levels generalizing strength depth c with
  | zero => trivial
  | succ levels ih =>
      simp only [expression]
      refine braced_bind (Nat.le_refl _) (operand_braced ih h) fun first c₁ h₁ => ?_
      simp only [cursor_bind]
      exact climb_braced ih strength _ first h₁

end Parse

end Scriptlet
