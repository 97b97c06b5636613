import Scriptlet.Proofs.Parse.Braces

/-!
The way that a parser takes. The count of open braces at its end does not tell whether
a parser has left the block around it in between. It has not: a parser before whose
first token `depth` braces were open moves on only from tokens at which at least as many
are open, whatever it comes upon, so it never gets past the brace that closes the block.
-/

namespace Scriptlet

namespace Cursor

/-- The second cursor is reached from the first by recording, and by moving on from
cursors at which at least `depth` braces are open. -/
inductive Inside (depth : Nat) (c : Cursor) : Cursor → Prop where
  | refl : Inside depth c c
  | advance {c' : Cursor} (h : Inside depth c c') (hopen : depth ≤ c'.depth) :
      Inside depth c c'.advance
  | record {c' : Cursor} (h : Inside depth c c') (d : Diagnostic) :
      Inside depth c (c'.record d)

variable {depth inner : Nat} {a b c : Cursor}

theorem Inside.trans (hab : a.Inside depth b) (hbc : b.Inside depth c) :
    a.Inside depth c := by
  induction hbc with
  | refl => exact hab
  | advance _ hopen ih => exact ih.advance hopen
  | record _ d ih => exact ih.record d

/-- What stays inside more braces stays inside fewer. -/
theorem Inside.of_le (h : a.Inside inner b) (hle : depth ≤ inner) : a.Inside depth b := by
  induction h with
  | refl => exact .refl
  | advance _ hopen ih => exact ih.advance (Nat.le_trans hle hopen)
  | record _ d ih => exact ih.record d

/-- Skipping a statement stops before the brace that closes the block around it. -/
theorem inside_synchronize (depth : Nat) (c : Cursor) :
    c.Inside depth (c.synchronize depth) := by
  have hgo (fuel : Nat) (c' : Cursor) (h : c.Inside depth c') :
      c.Inside depth (synchronize.go (depth : Int) fuel c') := by
    induction fuel generalizing c' with
    | zero => exact h
    | succ fuel ih =>
        simp only [synchronize.go]
        split
        next => exact h
        next hlow =>
          split
          next => exact h
          next =>
            simp only [Bool.or_eq_true, decide_eq_true_eq, not_or, Int.not_lt] at hlow
            exact ih _ (h.advance (by omega))
  exact hgo _ c .refl

end Cursor

/-- The outcome of a parser that started at `base`, before whose first token `depth`
braces were open. -/
def Parsed.Confined {α : Type} (depth : Nat) (base : Cursor) (outcome : Parsed α) : Prop :=
  outcome.Meets (fun _ c => base.Inside depth c) (fun c => base.Inside depth c) fun _ => True

namespace Parse

open Parsed

variable {α β : Type} {depth inner : Nat} {base c : Cursor} {nested : Nested}

/-- A part that leaves as many braces open as it found is gone on from inside the block. -/
theorem confined_bind {p : Parse α} {next : α → Parse β} (hbase : base.Inside depth c)
    (hle : depth ≤ inner) (hp : Confined inner c (p c)) (hbraced : Braced inner (p c))
    (hnext : ∀ a c', base.Inside depth c' → c'.depth = inner →
      Confined depth base (next a c')) :
    Confined depth base ((p >>= next) c) := by
  unfold Confined
  rw [bind_meets]
  apply (hp.and hbraced).mono
  · rintro a c' ⟨hinside, hdepth⟩
    exact hnext a c' (hbase.trans (hinside.of_le hle)) hdepth
  · rintro c' ⟨hinside, _⟩
    exact hbase.trans (hinside.of_le hle)
  · exact fun _ _ => trivial

/-- The token ahead is taken while the block is still open. -/
theorem confined_expect {kind : Kind} {next : Unit → Parse α} (hbase : base.Inside depth c)
    (hnext : c.ahead.kind = kind → Confined depth base (next () c.advance)) :
    Confined depth base ((expect kind >>= next) c) := by
  have hfail : base.Inside depth (c.record (.expected kind c.ahead)) := hbase.record _
  unfold Confined
  rw [bind_meets]
  exact expect_meets hnext fun _ => hfail

theorem confined_skipIf {kind : Kind} {n : Node} (hbase : base.Inside depth c)
    (hopen : depth ≤ c.depth) :
    Confined depth base ((do skipIf kind; return n : Parse Node) c) := by
  unfold Confined
  rw [bind_meets]
  exact skipIf_meets (fun _ => hbase.advance hopen) fun _ => hbase

theorem integerLiteral_confined : Confined depth c (integerLiteral c) := by
  rw [integerLiteral_run]
  split
  · split
    · exact .refl
    · exact Cursor.Inside.refl.record _
  · exact Cursor.Inside.refl.record _

theorem identAhead_confined (h : c.depth = depth) : Confined depth c (identAhead c) :=
  confined_expect .refl fun _ => Cursor.Inside.refl.advance (Nat.le_of_eq h.symm)

theorem moreParameters_confined (fuel : Nat) (read : List Ident)
    (hbase : base.Inside depth c) (h : c.depth = depth) :
    Confined depth base (moreParameters fuel read c) := by
  induction fuel generalizing read c with
  | zero => trivial
  | succ fuel ih =>
      simp only [moreParameters, aheadIs_bind, ite_run, advance_bind, pure_run,
        decide_eq_true_eq]
      split
      next hcomma =>
        have hadvance : c.advance.depth = depth := by
          simp [hcomma, Cursor.depthAfter, h]
        have hmoved : base.Inside depth c.advance := hbase.advance (Nat.le_of_eq h.symm)
        exact confined_bind hmoved (Nat.le_refl _) (identAhead_confined hadvance)
          (identAhead_braced hadvance) fun name c' hbase' h' => ih _ hbase' h'
      next => exact hbase

theorem parameters_confined (h : c.depth = depth) : Confined depth c (parameters c) := by
  simp only [parameters, aheadIs_bind, ite_run, advance_bind, pure_run,
    decide_eq_true_eq]
  split
  next => exact Cursor.Inside.refl.advance (Nat.le_of_eq h.symm)
  next =>
    apply confined_bind .refl (Nat.le_refl _) (identAhead_confined h) (identAhead_braced h)
    intro first c₁ hbase₁ h₁
    simp only [cursor_bind]
    apply confined_bind hbase₁ (Nat.le_refl _) (moreParameters_confined _ _ .refl h₁)
      (moreParameters_braced _ _ h₁)
    intro names c₂ hbase₂ h₂
    exact confined_expect hbase₂ fun _ => hbase₂.advance (Nat.le_of_eq h₂.symm)

section Nested

variable (hnested : ∀ strength depth c, Cursor.Before depth c →
    Confined depth c (nested strength c))
  (hbraced : ∀ strength depth c, Cursor.Before depth c →
    Braced depth (nested strength c))
include hnested hbraced

/-- Going on behind an expression that starts behind the current token. -/
theorem confined_nested {next : Node → Parse β} (strength : Int)
    (hbase : base.Inside depth c) (hle : depth ≤ inner) (h : c.depth = inner)
    (hnext : ∀ a c', base.Inside depth c' → c'.depth = inner →
      Confined depth base (next a c')) :
    Confined depth base ((nested strength >>= next) c.advance) := by
  have hmoved : base.Inside depth c.advance := hbase.advance (by omega)
  have hbefore : c.advance.Before inner := h ▸ c.before_advance
  exact confined_bind hmoved hle (hnested strength inner _ hbefore)
    (hbraced strength inner _ hbefore) hnext

theorem moreItems_confined (fuel : Nat) (read : List Node) (hbase : base.Inside depth c)
    (h : c.depth = depth) : Confined depth base (moreItems nested fuel read c) := by
  induction fuel generalizing read c with
  | zero => trivial
  | succ fuel ih =>
      simp only [moreItems, aheadIs_bind, ite_run, advance_bind, pure_run,
        decide_eq_true_eq]
      split
      next hcomma =>
        have hadvance : c.advance.depth = depth := by
          simp [hcomma, Cursor.depthAfter, h]
        have hmoved : base.Inside depth c.advance := hbase.advance (Nat.le_of_eq h.symm)
        exact confined_nested hnested hbraced _ hmoved (Nat.le_refl _) hadvance
          fun item c' hbase' h' => ih _ hbase' h'
      next => exact hbase

theorem expressionList_confined (closing : Kind) (h : c.depth = depth) :
    Confined depth c (expressionList nested closing c) := by
  simp only [expressionList, aheadIs_bind, ite_run, advance_bind, pure_run,
    decide_eq_true_eq]
  split
  next => exact Cursor.Inside.refl.advance (Nat.le_of_eq h.symm)
  next =>
    apply confined_nested hnested hbraced _ .refl (Nat.le_refl _) h
    intro first c₁ hbase₁ h₁
    simp only [cursor_bind]
    apply confined_bind hbase₁ (Nat.le_refl _)
      (moreItems_confined hnested hbraced _ _ .refl h₁) (moreItems_braced hbraced _ _ h₁)
    intro items c₂ hbase₂ h₂
    exact confined_expect hbase₂ fun _ => hbase₂.advance (Nat.le_of_eq h₂.symm)

theorem hashPairs_confined (fuel : Nat) (read : List (Node × Node))
    (hbase : base.Inside depth c) (h : c.depth = depth) :
    Confined depth base (hashPairs nested fuel read c) := by
  induction fuel generalizing read c with
  | zero => trivial
  | succ fuel ih =>
      simp only [hashPairs, advance_bind]
      apply confined_nested hnested hbraced _ hbase (Nat.le_refl _) h
      intro key c₁ hbase₁ h₁
      apply confined_expect hbase₁
      intro hcolon
      have hbehind : c₁.advance.depth = depth := by
        simp [hcolon, Cursor.depthAfter, h₁]
      have hmoved : base.Inside depth c₁.advance := hbase₁.advance (Nat.le_of_eq h₁.symm)
      simp only [advance_bind]
      apply confined_nested hnested hbraced _ hmoved (Nat.le_refl _) hbehind
      intro value c₂ hbase₂ h₂
      simp only [aheadIs_bind, ite_run, advance_bind, pure_run, decide_eq_true_eq]
      split
      next hcomma =>
        have hnext : c₂.advance.depth = depth := by
          simp [hcomma, Cursor.depthAfter, h₂]
        exact ih _ (hbase₂.advance (Nat.le_of_eq h₂.symm)) hnext
      next => exact hbase₂

theorem hashLiteral_confined (h : c.depth = depth + 1) :
    Confined depth c (hashLiteral nested c) := by
  simp only [hashLiteral, current_bind, aheadIs_bind, ite_run, advance_bind, pure_run,
    cursor_bind, decide_eq_true_eq]
  split
  next => exact Cursor.Inside.refl.advance (by omega)
  next =>
    apply confined_bind .refl (Nat.le_succ _)
      (hashPairs_confined hnested hbraced _ _ .refl h) (hashPairs_braced hbraced _ _ h)
    intro pairs c₁ hbase₁ h₁
    exact confined_expect hbase₁ fun _ => hbase₁.advance (by omega)

theorem bindingStatement_confined (h : c.depth = depth) :
    Confined depth c (bindingStatement nested c) := by
  simp only [bindingStatement, current_bind]
  apply confined_bind .refl (Nat.le_refl _) (identAhead_confined h) (identAhead_braced h)
  intro name c₁ hbase₁ h₁
  apply confined_expect hbase₁
  intro hassign
  have hbehind : c₁.advance.depth = depth := by
    simp [hassign, Cursor.depthAfter, h₁]
  have hmoved : c.Inside depth c₁.advance := hbase₁.advance (Nat.le_of_eq h₁.symm)
  simp only [advance_bind]
  exact confined_nested hnested hbraced _ hmoved (Nat.le_refl _) hbehind
    fun value c₂ hbase₂ h₂ => confined_skipIf hbase₂ (Nat.le_of_eq h₂.symm)

theorem returnStatement_confined (h : c.depth = depth) :
    Confined depth c (returnStatement nested c) := by
  simp only [returnStatement, current_bind, cursor_bind, ite_run, advance_bind]
  split
  next => exact confined_skipIf .refl (Nat.le_of_eq h.symm)
  next =>
    exact confined_nested hnested hbraced _ .refl (Nat.le_refl _) h
      fun value c₁ hbase₁ h₁ => confined_skipIf hbase₁ (Nat.le_of_eq h₁.symm)

/-- A statement of a block does not move past the brace that closes the block. -/
theorem statement_confined (h : c.Before depth) :
    Confined depth c (statement nested c) := by
  rw [statement_run]
  split
  next hkind => exact bindingStatement_confined hnested hbraced (h.depth_eq hkind)
  next hkind => exact returnStatement_confined hnested hbraced (h.depth_eq hkind)
  next =>
    simp only [expressionStatement, current_bind]
    exact confined_bind .refl (Nat.le_refl _) (hnested _ _ _ h) (hbraced _ _ _ h)
      fun value c₁ hbase₁ h₁ => confined_skipIf hbase₁ (Nat.le_of_eq h₁.symm)

/-- Recovery moves on only inside the block. -/
theorem recovering_confined (hle : depth ≤ inner) (h : c.Before inner) :
    (recovering depth (statement nested) c).Meets (fun _ c' => c.Inside depth c')
      (fun _ => False) fun _ => True := by
  have hstatement := statement_confined hnested hbraced h
  unfold recovering
  revert hstatement
  cases statement nested c with
  | done n after =>
      intro hdone
      have hinside : c.Inside depth after := Cursor.Inside.of_le hdone hle
      simp only
      split
      · exact hinside
      · exact hinside
  | refused after =>
      intro hrefused
      have hinside : c.Inside depth after := Cursor.Inside.of_le hrefused hle
      exact hinside.trans (Cursor.inside_synchronize depth after)
  | tooDeep after => exact fun _ => trivial

/-- The statements of a block opened among `depth` braces, its own included, stay
inside it, and are refused only at the end, where the closing brace is missed. -/
theorem blockStatements_confined (fuel : Nat) (read : List Node)
    (hbase : base.Inside depth c)
    (h : (∃ inner, depth ≤ inner ∧ c.Before inner) ∨
      c.depth + 1 = depth ∧ c.current.kind = .symbol .rightBrace) :
    (blockStatements nested depth fuel read c).Meets
      (fun _ c' => base.Inside depth c')
      (fun c' => base.Inside depth c' ∧ depth ≤ c'.depth ∧ c'.current.kind = .finish ∧
        c'.diagnostics.getLast? = some (.expected (.symbol .rightBrace) c'.current))
      fun _ => True := by
  induction fuel generalizing read c with
  | zero => trivial
  | succ fuel ih =>
      simp only [blockStatements, cursor_bind, ite_run, pure_run, refuse_bind]
      split
      next => exact hbase
      next hopen =>
        obtain ⟨inner, hle, hbefore⟩ : ∃ inner, depth ≤ inner ∧ c.Before inner :=
          h.resolve_right fun hclosed => hopen (by omega)
        split
        next hfinish =>
          exact ⟨hbase.record _, Nat.le_of_not_lt hopen, hfinish, by simp⟩
        next =>
          have hinside := recovering_confined hnested hbraced hle hbefore
          have hwithin := recovering_within hbraced hle hbefore
          rw [bind_meets]
          apply (hinside.and hwithin).mono
          · rintro found c₁ ⟨hinside₁, hwithin₁⟩
            have hbase₁ := hbase.trans hinside₁
            simp only [cursor_bind, ite_run, advance_bind]
            split
            next hstill =>
              exact ih _ (hbase₁.advance hstill) (.inl ⟨c₁.depth, hstill, c₁.before_advance⟩)
            -- Recovery stopped on the brace that closes the block.
            next hover => exact ih _ hbase₁ (.inr (hwithin₁.resolve_left hover))
          · exact fun _ h => h.1.elim
          · exact fun _ _ => trivial

/-- A block whose opening brace is the current token. -/
theorem block_confined (c : Cursor) :
    (block nested c).Meets (fun _ c' => c.Inside c.depth c')
      (fun c' => c.Inside c.depth c' ∧ c.depth ≤ c'.depth ∧ c'.current.kind = .finish ∧
        c'.diagnostics.getLast? = some (.expected (.symbol .rightBrace) c'.current))
      fun _ => True := by
  simp only [block, cursor_bind, advance_bind, bind_meets]
  have hmoved : c.Inside c.depth c.advance := Cursor.Inside.refl.advance (Nat.le_refl _)
  exact blockStatements_confined hnested hbraced _ _ hmoved
    (.inl ⟨c.depth, Nat.le_refl _, c.before_advance⟩)

/-- A block inside another is closed before the other is. -/
theorem blockAhead_confined (h : c.depth = depth) :
    Confined depth c (blockAhead nested c) := by
  have hmoved : c.Inside depth c.advance :=
    Cursor.Inside.refl.advance (Nat.le_of_eq h.symm)
  apply confined_expect .refl
  intro hopen
  have hdepth : depth ≤ c.advance.depth := by
    simp [hopen, Cursor.depthAfter, h]
  apply (block_confined hnested hbraced c.advance).mono
  · exact fun _ c' hinside => hmoved.trans (hinside.of_le hdepth)
  · exact fun c' hrefused => hmoved.trans (hrefused.1.of_le hdepth)
  · exact fun _ h => h

theorem conditional_confined (h : c.depth = depth) :
    Confined depth c (conditional nested c) := by
  simp only [conditional, current_bind]
  apply confined_expect .refl
  intro hopen
  have hbehind : c.advance.depth = depth := by
    simp [hopen, Cursor.depthAfter, h]
  have hmoved : c.Inside depth c.advance :=
    Cursor.Inside.refl.advance (Nat.le_of_eq h.symm)
  simp only [advance_bind]
  apply confined_nested hnested hbraced _ hmoved (Nat.le_refl _) hbehind
  intro condition c₁ hbase₁ h₁
  apply confined_expect hbase₁
  intro hclose
  have hbehind₁ : c₁.advance.depth = depth := by
    simp [hclose, Cursor.depthAfter, h₁]
  apply confined_bind (hbase₁.advance (Nat.le_of_eq h₁.symm)) (Nat.le_refl _)
    (blockAhead_confined hnested hbraced hbehind₁) (blockAhead_braced hbraced hbehind₁)
  intro consequence c₂ hbase₂ h₂
  simp only [aheadIs_bind, ite_run, advance_bind, pure_run, decide_eq_true_eq]
  split
  next helse =>
    have hbehind₂ : c₂.advance.depth = depth := by
      simp [helse, Cursor.depthAfter, h₂]
    exact confined_bind (hbase₂.advance (Nat.le_of_eq h₂.symm)) (Nat.le_refl _)
      (blockAhead_confined hnested hbraced hbehind₂) (blockAhead_braced hbraced hbehind₂)
      fun alternative c₃ hbase₃ _ => hbase₃
  next => exact hbase₂

theorem functionLiteral_confined (h : c.depth = depth) :
    Confined depth c (functionLiteral nested c) := by
  simp only [functionLiteral, current_bind]
  apply confined_expect .refl
  intro hopen
  have hbehind : c.advance.depth = depth := by
    simp [hopen, Cursor.depthAfter, h]
  have hmoved : c.Inside depth c.advance :=
    Cursor.Inside.refl.advance (Nat.le_of_eq h.symm)
  apply confined_bind hmoved (Nat.le_refl _) (parameters_confined hbehind)
    (parameters_braced hbehind)
  intro names c₁ hbase₁ h₁
  exact confined_bind hbase₁ (Nat.le_refl _) (blockAhead_confined hnested hbraced h₁)
    (blockAhead_braced hbraced h₁) fun body c₂ hbase₂ _ => hbase₂

theorem operand_confined (h : c.Before depth) : Confined depth c (operand nested c) := by
  rw [operand_run]
  split
  · exact .refl
  · exact integerLiteral_confined
  · exact .refl
  · exact .refl
  · exact .refl
  case h_6 hkind | h_7 hkind | h_8 hkind =>
    simp only [unary, current_bind, advance_bind]
    exact confined_nested hnested hbraced _ .refl (Nat.le_refl _) (h.depth_eq hkind)
      fun operand c₁ hbase₁ _ => hbase₁
  next hkind =>
    simp only [grouped, advance_bind]
    apply confined_nested hnested hbraced _ .refl (Nat.le_refl _) (h.depth_eq hkind)
    intro inner c₁ hbase₁ h₁
    exact confined_expect hbase₁ fun _ => hbase₁.advance (Nat.le_of_eq h₁.symm)
  next hkind => exact conditional_confined hnested hbraced (h.depth_eq hkind)
  next hkind => exact functionLiteral_confined hnested hbraced (h.depth_eq hkind)
  next hkind =>
    have hdepth : c.depth = depth := h.depth_eq hkind
    simp only [arrayLiteral, current_bind]
    exact confined_bind .refl (Nat.le_refl _) (expressionList_confined hnested hbraced _ hdepth)
      (expressionList_braced hbraced hdepth rfl) fun elements c₁ hbase₁ _ => hbase₁
  next hkind => exact hashLiteral_confined hnested hbraced (h.depth_eq hkind)
  · exact Cursor.Inside.refl.record _

theorem continuation_confined (left : Node) (h : c.depth = depth) :
    Confined depth c (continuation nested left c) := by
  rw [continuation_run]
  split
  next =>
    simp only [callRest, current_bind]
    exact confined_bind .refl (Nat.le_refl _) (expressionList_confined hnested hbraced _ h)
      (expressionList_braced hbraced h rfl) fun arguments c₁ hbase₁ _ => hbase₁
  next =>
    simp only [indexRest, current_bind, advance_bind]
    apply confined_nested hnested hbraced _ .refl (Nat.le_refl _) h
    intro place c₁ hbase₁ h₁
    exact confined_expect hbase₁ fun _ => hbase₁.advance (Nat.le_of_eq h₁.symm)
  next =>
    simp only [infixRest, current_bind, advance_bind]
    exact confined_nested hnested hbraced _ .refl (Nat.le_refl _) h
      fun right c₁ hbase₁ _ => hbase₁

/-- Operators and what they join stand on the level of braces of the expression. -/
theorem climb_confined (strength : Int) (fuel : Nat) (left : Node)
    (hbase : base.Inside depth c) (h : c.depth = depth) :
    Confined depth base (climb nested strength fuel left c) := by
  induction fuel generalizing left c with
  | zero => trivial
  | succ fuel ih =>
      simp only [climb, cursor_bind, ite_run, pure_run, advance_bind]
      split
      next => exact hbase
      next hgo =>
        simp only [Bool.or_eq_true, Bool.not_eq_true', not_or, Bool.not_eq_false] at hgo
        have hbehind : c.advance.depth = depth := by
          rw [Cursor.advance_depth, depthAfter_continues hgo.2, h]
        exact confined_bind (hbase.advance (Nat.le_of_eq h.symm)) (Nat.le_refl _)
          (continuation_confined hnested hbraced left hbehind)
          (continuation_braced hbraced left hbehind)
          fun longer c₁ hbase₁ h₁ => ih longer hbase₁ h₁

end Nested

/-- An expression never leaves the block in which it begins. -/
theorem expression_confined (levels : Nat) (strength : Int) (depth : Nat) (c : Cursor)
    (h : c.Before depth) : Confined depth c (expression levels strength c) := by
  induction levels generalizing strength depth c with
  | zero => trivial
  | succ levels ih =>
      have hbraced := expression_braced levels
      simp only [expression]
      apply confined_bind .refl (Nat.le_refl _) (operand_confined ih hbraced h)
        (operand_braced hbraced h)
      intro first c₁ hbase₁ h₁
      simp only [cursor_bind]
      exact climb_confined ih hbraced strength _ first hbase₁ h₁

end Parse

end Scriptlet
