import Scriptlet.Proofs.Parse.Outcome

/-!
How far parsers get. A parser only ever moves its cursor on and records
diagnostics, and one that refuses has recorded at least one. The tokens that are
left never grow in number and every loop takes one in each turn, so the number
of turns granted to a loop is never used up, and a parser that may follow more
levels of nesting than there are tokens left always comes to an end.
-/

namespace Scriptlet

namespace Cursor

/-- The second cursor is reached from the first by moving on and recording. -/
inductive Reach (c : Cursor) : Cursor → Prop where
  | refl : Reach c c
  | advance {c' : Cursor} (h : Reach c c') : Reach c c'.advance
  | record {c' : Cursor} (h : Reach c c') (d : Diagnostic) : Reach c (c'.record d)

theorem Reach.trans {a b c : Cursor} (hab : a.Reach b) (hbc : b.Reach c) :
    a.Reach c := by
  induction hbc with
  | refl => exact hab
  | advance _ ih => exact ih.advance
  | record _ d ih => exact ih.record d

/-- What has been recorded stays recorded. -/
theorem Reach.diagnostics {c c' : Cursor} (h : c.Reach c') :
    c.diagnostics <+: c'.diagnostics := by
  induction h with
  | refl => exact List.prefix_rfl
  | advance _ ih => simpa using ih
  | record _ d ih => exact ih.trans (List.prefix_append _ _)

/-- The number of moves after which the cursor stands on the finishing token
and stays there. -/
def left (c : Cursor) : Nat :=
  match c.rest with
  | [] =>
    if c.ahead = .finish c.endLine c.endColumn then
      if c.current.kind = .finish then 0 else 1
    else 2
  | _ :: rest => rest.length + 3

/-- A loop that takes a token in every turn has turns enough. -/
theorem left_le_turns (c : Cursor) : c.left < c.turns := by
  unfold left turns
  cases c.rest with
  | nil =>
      simp only [List.length_nil]
      split
      · split <;> omega
      · omega
  | cons t rest => simp

@[simp] theorem left_record (c : Cursor) (d : Diagnostic) :
    (c.record d).left = c.left := rfl

private theorem left_nil_le {c : Cursor} (h : c.rest = []) : c.left ≤ 2 := by
  unfold left
  rw [h]
  simp only
  split
  · split <;> omega
  · exact Nat.le_refl 2

/-- A move takes a token as long as there is one. -/
theorem left_advance_lt {c : Cursor} (h : 0 < c.left) : c.advance.left < c.left := by
  obtain ⟨current, ahead, rest, endLine, endColumn, depth, diagnostics⟩ := c
  cases rest with
  | nil =>
      by_cases hahead : ahead = .finish endLine endColumn
      · subst hahead
        simp [left, advance, Token.finish] at h ⊢
        omega
      · by_cases hkind : ahead.kind = .finish <;> simp [left, advance, hahead, hkind]
  | cons t rest =>
      cases rest with
      | nil =>
          have hle := left_nil_le
            (c := (⟨current, ahead, [t], endLine, endColumn, depth, diagnostics⟩ :
              Cursor).advance) rfl
          simp only [left] at hle ⊢
          omega
      | cons u rest => simp [left, advance]

theorem left_advance_le (c : Cursor) : c.advance.left ≤ c.left := by
  rcases Nat.eq_zero_or_pos c.left with hzero | hpos
  · obtain ⟨current, ahead, rest, endLine, endColumn, depth, diagnostics⟩ := c
    cases rest with
    | nil =>
        by_cases hahead : ahead = .finish endLine endColumn
        · subst hahead
          simp [left, advance, Token.finish]
        · simp [left, hahead] at hzero
    | cons t rest => simp [left] at hzero
  · exact Nat.le_of_lt (left_advance_lt hpos)

/-- Nothing brings tokens back. -/
theorem Reach.left_le {c c' : Cursor} (h : c.Reach c') : c'.left ≤ c.left := by
  induction h with
  | refl => exact Nat.le_refl _
  | advance _ ih => exact Nat.le_trans (left_advance_le _) ih
  | record _ d ih => simpa using ih

/-- Wherever a cursor gets from a token that is not the last, one move more
leaves fewer tokens. -/
theorem Reach.left_advance_lt {c c' : Cursor} (h : c.Reach c') (hpos : 0 < c.left) :
    c'.advance.left < c.left := by
  have hle := h.left_le
  rcases Nat.eq_zero_or_pos c'.left with hzero | hpos'
  · have := left_advance_le c'
    omega
  · have := Cursor.left_advance_lt hpos'
    omega

theorem left_pos_of_current {c : Cursor} (h : c.current.kind ≠ .finish) :
    0 < c.left := by
  unfold left
  split
  · simp only [h, if_false]
    split <;> omega
  · omega

/-- Where a rule has seen another token ahead there is one to take. -/
theorem left_pos_of_ahead {c : Cursor} (h : c.ahead.kind ≠ .finish) :
    0 < c.left := by
  have hahead : c.ahead ≠ .finish c.endLine c.endColumn := by
    intro heq
    exact h (by rw [heq]; rfl)
  unfold left
  split
  · simp [hahead]
  · omega

/-- Tokens that are not the finishing one are the only ones to take. -/
theorem left_start_le (tokens : List Token) (endLine endColumn : Nat) :
    (start tokens endLine endColumn).left ≤ tokens.length := by
  rcases tokens with _ | ⟨t, _ | ⟨u, rest⟩⟩
  · simp [start, advance, left, Token.finish]
  · by_cases hkind : t.kind = .finish <;> simp [start, advance, left, hkind]
  · cases rest with
    | nil => exact left_nil_le rfl
    | cons v rest => simp [start, advance, left]

end Cursor

/-- The outcome of a parser that started at `base`: it has only moved on and
recorded, has recorded something if it refuses, and gives up only if there were
at least `limit` tokens left. -/
def Parsed.Orderly {α : Type} (limit : Nat) (base : Cursor) (outcome : Parsed α) :
    Prop :=
  outcome.Meets (fun _ c => base.Reach c)
    (fun c => base.Reach c ∧ base.diagnostics.length < c.diagnostics.length)
    (fun c => base.Reach c ∧ limit ≤ base.left)

/-- Seen from an earlier cursor with more tokens left, a parser may give up at a
limit that is higher by one. -/
theorem Parsed.Orderly.earlier {α : Type} {limit : Nat} {base c : Cursor}
    {outcome : Parsed α} (h : outcome.Orderly limit c) (hbase : base.Reach c)
    (hleft : c.left < base.left) : outcome.Orderly (limit + 1) base := by
  refine Meets.mono h (fun _ c' hreach => hbase.trans hreach) ?_ ?_
  · rintro c' ⟨hreach, hgrown⟩
    exact ⟨hbase.trans hreach, Nat.lt_of_le_of_lt hbase.diagnostics.length_le hgrown⟩
  · rintro c' ⟨hreach, hlimit⟩
    exact ⟨hbase.trans hreach, by omega⟩

namespace Parse

open Parsed

variable {α β : Type} {limit : Nat} {base c : Cursor} {nested : Nested}

theorem orderly_refuse (h : base.Reach c) (reason : Diagnostic) :
    Orderly limit base (.refused (c.record reason) : Parsed α) := by
  refine ⟨h.record reason, ?_⟩
  have hlength := h.diagnostics.length_le
  simp only [Cursor.record_diagnostics, List.length_append, List.length_singleton]
  omega

/-- The second part may start from any cursor that the first can have come to. -/
theorem orderly_bind {p : Parse α} {next : α → Parse β}
    (hbase : base.Reach c) (hp : Orderly limit c (p c))
    (hnext : ∀ a c', c.Reach c' → Orderly limit base (next a c')) :
    Orderly limit base ((p >>= next) c) := by
  unfold Orderly
  rw [bind_meets]
  refine Meets.mono hp (fun a c' h => hnext a c' h) ?_ ?_
  · rintro c' ⟨hreach, hgrown⟩
    exact ⟨hbase.trans hreach, Nat.lt_of_le_of_lt hbase.diagnostics.length_le hgrown⟩
  · rintro c' ⟨hreach, hlimit⟩
    exact ⟨hbase.trans hreach, Nat.le_trans hlimit hbase.left_le⟩

/-- A refusal records what was expected, so it does not go unsaid. -/
theorem orderly_expect {kind : Kind} {next : Unit → Parse α} (hbase : base.Reach c)
    (hnext : c.ahead.kind = kind → Orderly limit base (next () c.advance)) :
    Orderly limit base ((expect kind >>= next) c) := by
  have hfail : Orderly limit base
      (.refused (c.record (.expected kind c.ahead)) : Parsed α) :=
    orderly_refuse hbase _
  unfold Orderly
  rw [bind_meets]
  exact expect_meets hnext fun _ => hfail

theorem orderly_skipIf {kind : Kind} {next : Unit → Parse α} (hbase : base.Reach c)
    (hnext : ∀ c', base.Reach c' → Orderly limit base (next () c')) :
    Orderly limit base ((skipIf kind >>= next) c) := by
  unfold Orderly
  rw [bind_meets]
  exact skipIf_meets (fun _ => hnext _ hbase.advance) fun _ => hnext _ hbase

theorem integerLiteral_orderly (hbase : base.Reach c) :
    Orderly limit base (integerLiteral c) := by
  rw [integerLiteral_run]
  split
  · split
    · exact hbase
    · exact orderly_refuse hbase _
  · exact orderly_refuse hbase _

theorem identAhead_orderly (hbase : base.Reach c) :
    Orderly limit base (identAhead c) :=
  orderly_expect hbase fun _ => hbase.advance

/-- By induction on the turns left, of which there are more than tokens. -/
theorem moreParameters_orderly (fuel : Nat) (read : List Ident) (hbase : base.Reach c)
    (hfuel : c.left < fuel) : Orderly limit base (moreParameters fuel read c) := by
  induction fuel generalizing read c with
  | zero => omega
  | succ fuel ih =>
      simp only [moreParameters, aheadIs_bind, ite_run, advance_bind, pure_run,
        decide_eq_true_eq]
      split
      next hcomma =>
        have hpos : 0 < c.left := Cursor.left_pos_of_ahead (by simp [hcomma])
        have hlt := Cursor.left_advance_lt hpos
        refine orderly_bind hbase.advance (identAhead_orderly .refl) fun name c' h' => ?_
        have hle := h'.left_le
        exact ih _ (hbase.advance.trans h') (by omega)
      next => exact hbase

theorem parameters_orderly (hbase : base.Reach c) :
    Orderly limit base (parameters c) := by
  simp only [parameters, aheadIs_bind, ite_run, advance_bind, pure_run,
    decide_eq_true_eq]
  split
  next => exact hbase.advance
  next =>
    refine orderly_bind hbase (identAhead_orderly .refl) fun first c₁ h₁ => ?_
    have h₁ := hbase.trans h₁
    simp only [cursor_bind]
    refine orderly_bind h₁ (moreParameters_orderly _ _ .refl
      (Cursor.left_le_turns c₁)) fun names c₂ h₂ => ?_
    have h₂ := h₁.trans h₂
    exact orderly_expect h₂ fun _ => h₂.advance

/-- Skipping is moving on. -/
theorem synchronize_reach (depth : Int) (c : Cursor) : c.Reach (c.synchronize depth) := by
  have hgo (fuel : Nat) (c' : Cursor) (h : c.Reach c') :
      c.Reach (Cursor.synchronize.go depth fuel c') := by
    induction fuel generalizing c' with
    | zero => exact h
    | succ fuel ih =>
        simp only [Cursor.synchronize.go]
        split
        · exact h
        · split
          · exact h
          · exact ih _ h.advance
  exact hgo _ c .refl

theorem continues_ne_finish {kind : Kind} (h : continues kind = true) :
    kind ≠ .finish := by
  rintro rfl
  cases h

/-- A statement is skipped when it is refused, so there is always an answer. -/
theorem recovering_meets {depth : Int} {statement : Parse Node}
    (hbase : base.Reach c) (h : Orderly limit c (statement c)) :
    (recovering depth statement c).Meets (fun _ c' => base.Reach c')
      (fun _ => False) (fun c' => base.Reach c' ∧ limit ≤ base.left) := by
  unfold recovering
  revert h
  cases statement c with
  | done n after =>
      intro h
      simp only
      split
      · exact hbase.trans h
      · exact hbase.trans h
  | refused after =>
      intro h
      exact hbase.trans (h.1.trans (synchronize_reach depth after))
  | tooDeep after =>
      intro h
      exact ⟨hbase.trans h.1, Nat.le_trans h.2 hbase.left_le⟩

/-- A statement is kept just when nothing was recorded during it. -/
theorem recovering_done {depth : Int} {statement : Parse Node} {found : Option Node}
    (h : Orderly limit c (statement c)) (hrun : recovering depth statement c = .done found c') :
    (∃ n, found = some n ∧ statement c = .done n c' ∧ c'.diagnostics = c.diagnostics) ∨
      found = none ∧ c.diagnostics.length < c'.diagnostics.length := by
  unfold recovering at hrun
  revert h hrun
  cases statement c with
  | done n after =>
      intro hreach hrun
      simp only at hrun
      split at hrun
      next hgrown =>
        cases hrun
        exact .inr ⟨rfl, hgrown⟩
      next hlength =>
        cases hrun
        have hsame := hreach.diagnostics.eq_of_length_le (by omega)
        exact .inl ⟨n, rfl, rfl, hsame.symm⟩
  | refused after =>
      intro hrefused hrun
      cases hrun
      have hgrown := (synchronize_reach depth after).diagnostics.length_le
      exact .inr ⟨rfl, Nat.lt_of_lt_of_le hrefused.2 hgrown⟩
  | tooDeep after =>
      intro _ hrun
      cases hrun

section Nested

variable (hnested : ∀ strength c, Orderly limit c (nested strength c))
include hnested

theorem moreItems_orderly (fuel : Nat) (read : List Node) (hbase : base.Reach c)
    (hfuel : c.left < fuel) : Orderly limit base (moreItems nested fuel read c) := by
  induction fuel generalizing read c with
  | zero => omega
  | succ fuel ih =>
      simp only [moreItems, aheadIs_bind, ite_run, advance_bind, pure_run,
        decide_eq_true_eq]
      split
      next hcomma =>
        have hpos : 0 < c.left := Cursor.left_pos_of_ahead (by simp [hcomma])
        have hlt := Cursor.left_advance_lt hpos
        have hle := Cursor.left_advance_le c.advance
        refine orderly_bind hbase.advance.advance (hnested _ _) fun item c' hreach => ?_
        have hleft := hreach.left_le
        exact ih _ (hbase.advance.advance.trans hreach) (by omega)
      next => exact hbase

theorem expressionList_orderly (closing : Kind) (hbase : base.Reach c.advance) :
    Orderly limit base (expressionList nested closing c) := by
  simp only [expressionList, aheadIs_bind, ite_run, advance_bind, pure_run,
    decide_eq_true_eq]
  split
  next => exact hbase
  next =>
    refine orderly_bind hbase (hnested _ _) fun first c₁ h₁ => ?_
    have h₁ := hbase.trans h₁
    simp only [cursor_bind]
    refine orderly_bind h₁ (moreItems_orderly hnested _ _ .refl
      (Cursor.left_le_turns c₁)) fun items c₂ h₂ => ?_
    have h₂ := h₁.trans h₂
    exact orderly_expect h₂ fun _ => h₂.advance

theorem hashPairs_orderly (fuel : Nat) (read : List (Node × Node))
    (hbase : base.Reach c.advance) (hfuel : c.left < fuel) :
    Orderly limit base (hashPairs nested fuel read c) := by
  induction fuel generalizing read c with
  | zero => omega
  | succ fuel ih =>
      simp only [hashPairs, advance_bind]
      refine orderly_bind hbase (hnested _ _) fun key c₁ h₁ => ?_
      refine orderly_expect (hbase.trans h₁) fun _ => ?_
      simp only [advance_bind]
      refine orderly_bind (hbase.trans h₁.advance.advance) (hnested _ _)
        fun value c₂ h₂ => ?_
      have h₂ := h₁.advance.advance.trans h₂
      simp only [aheadIs_bind, ite_run, advance_bind, pure_run, decide_eq_true_eq]
      split
      next hcomma =>
        have hpos : 0 < c₂.left := Cursor.left_pos_of_ahead (by simp [hcomma])
        have hlt := Cursor.left_advance_lt hpos
        have hle := h₂.left_le
        have hfirst := Cursor.left_advance_le c
        exact ih _ (hbase.trans h₂.advance.advance) (by omega)
      next => exact hbase.trans h₂

theorem hashLiteral_orderly (hbase : base.Reach c.advance) :
    Orderly limit base (hashLiteral nested c) := by
  simp only [hashLiteral, current_bind, aheadIs_bind, ite_run, advance_bind, pure_run,
    cursor_bind, decide_eq_true_eq]
  split
  next => exact hbase
  next =>
    unfold Orderly
    rw [bind_meets]
    refine (hashPairs_orderly hnested c.turns [] hbase
      (Cursor.left_le_turns c)).mono (fun pairs c₁ h₁ => ?_) (fun _ h => h) fun _ h => h
    exact orderly_expect h₁ fun _ => h₁.advance

theorem bindingStatement_orderly (hbase : base.Reach c) :
    Orderly limit base (bindingStatement nested c) := by
  simp only [bindingStatement, current_bind]
  refine orderly_bind hbase (identAhead_orderly .refl) fun name c₁ h₁ => ?_
  have h₁ := hbase.trans h₁
  refine orderly_expect h₁ fun _ => ?_
  simp only [advance_bind]
  refine orderly_bind h₁.advance.advance (hnested _ _) fun value c₂ h₂ => ?_
  exact orderly_skipIf (h₁.advance.advance.trans h₂) fun c' h' => h'

theorem returnStatement_orderly (hbase : base.Reach c) :
    Orderly limit base (returnStatement nested c) := by
  simp only [returnStatement, current_bind, cursor_bind, ite_run, advance_bind]
  split
  next => exact orderly_skipIf hbase fun c' h' => h'
  next =>
    refine orderly_bind hbase.advance (hnested _ _) fun value c₁ h₁ => ?_
    exact orderly_skipIf (hbase.advance.trans h₁) fun c' h' => h'

theorem expressionStatement_orderly (hbase : base.Reach c) :
    Orderly limit base (expressionStatement nested c) := by
  simp only [expressionStatement, current_bind]
  refine orderly_bind hbase (hnested _ _) fun value c₁ h₁ => ?_
  exact orderly_skipIf (hbase.trans h₁) fun c' h' => h'

theorem statement_orderly (hbase : base.Reach c) :
    Orderly limit base (statement nested c) := by
  rw [statement_run]
  split
  · exact bindingStatement_orderly hnested hbase
  · exact returnStatement_orderly hnested hbase
  · exact expressionStatement_orderly hnested hbase

/-- A statement that is left out has been moved over all the same. -/
theorem recovering_reach {depth : Int} {found : Option Node}
    (h : recovering depth (statement nested) c = .done found c') : c.Reach c' := by
  have hmeets : (recovering depth (statement nested) c).Meets (fun _ c' => c.Reach c') _ _ :=
    recovering_meets .refl (statement_orderly hnested .refl)
  rwa [h] at hmeets

/-- Every turn moves on behind its statement, so the turns outlast the tokens. -/
theorem blockStatements_orderly (depth fuel : Nat) (read : List Node)
    (hbase : base.Reach c) (hfuel : c.left < fuel) :
    Orderly limit base (blockStatements nested depth fuel read c) := by
  induction fuel generalizing read c with
  | zero => omega
  | succ fuel ih =>
      simp only [blockStatements, cursor_bind, ite_run, pure_run, refuse_bind]
      split
      next => exact hbase
      next =>
        split
        next => exact orderly_refuse hbase _
        next hcurrent =>
          have hpos := Cursor.left_pos_of_current hcurrent
          have hstep : Orderly limit c (recovering depth (statement nested) c) :=
            (recovering_meets .refl (statement_orderly hnested .refl)).mono
              (fun _ _ h => h) (fun _ h => h.elim) fun _ h => h
          refine orderly_bind hbase hstep fun found c₁ h₁ => ?_
          have hbase₁ := hbase.trans h₁
          simp only [cursor_bind, ite_run, advance_bind]
          split
          next =>
            have hlt := h₁.left_advance_lt hpos
            exact ih _ hbase₁.advance (by omega)
          next hclosed =>
            -- The block is over, and the next turn only says so.
            obtain ⟨fuel, rfl⟩ : ∃ n, fuel = n + 1 := ⟨fuel - 1, by omega⟩
            simp only [blockStatements, cursor_bind, ite_run, pure_run]
            rw [if_pos (by omega)]
            exact hbase₁

theorem blockAhead_orderly (hbase : base.Reach c) :
    Orderly limit base (blockAhead nested c) := by
  refine orderly_expect hbase fun _ => ?_
  simp only [block, cursor_bind, advance_bind]
  refine orderly_bind hbase.advance.advance (blockStatements_orderly hnested _ _ _ .refl
    (Cursor.left_le_turns _)) fun statements c₁ h₁ => ?_
  exact hbase.advance.advance.trans h₁

theorem conditional_orderly (hleft : c.advance.left < c.left) :
    Orderly (limit + 1) c (conditional nested c) := by
  simp only [conditional, current_bind]
  refine orderly_expect .refl fun _ => ?_
  refine Orderly.earlier ?_ (.advance .refl) hleft
  simp only [advance_bind]
  refine orderly_bind (.advance .refl) (hnested _ _) fun condition c₁ h₁ => ?_
  have h₁ := (Cursor.Reach.refl.advance).trans h₁
  refine orderly_expect h₁ fun _ => ?_
  refine orderly_bind h₁.advance (blockAhead_orderly hnested .refl)
    fun consequence c₂ h₂ => ?_
  have h₂ := h₁.advance.trans h₂
  simp only [aheadIs_bind, ite_run, advance_bind, pure_run, decide_eq_true_eq]
  split
  next =>
    refine orderly_bind h₂.advance (blockAhead_orderly hnested .refl)
      fun alternative c₃ h₃ => ?_
    exact h₂.advance.trans h₃
  next => exact h₂

theorem functionLiteral_orderly (hleft : c.advance.left < c.left) :
    Orderly (limit + 1) c (functionLiteral nested c) := by
  simp only [functionLiteral, current_bind]
  refine orderly_expect .refl fun _ => ?_
  refine Orderly.earlier ?_ (.advance .refl) hleft
  refine orderly_bind .refl (parameters_orderly .refl) fun names c₁ h₁ => ?_
  refine orderly_bind h₁ (blockAhead_orderly hnested .refl) fun body c₂ h₂ => ?_
  exact h₁.trans h₂

theorem grouped_orderly (hbase : base.Reach c.advance) :
    Orderly limit base (grouped nested c) := by
  simp only [grouped, advance_bind]
  refine orderly_bind hbase (hnested _ _) fun inner c₁ h₁ => ?_
  exact orderly_expect (hbase.trans h₁) fun _ => (hbase.trans h₁).advance

theorem unary_orderly (hbase : base.Reach c.advance) :
    Orderly limit base (unary nested c) := by
  simp only [unary, current_bind, advance_bind]
  exact orderly_bind hbase (hnested _ _) fun operand c₁ h₁ => hbase.trans h₁

theorem arrayLiteral_orderly (hbase : base.Reach c.advance) :
    Orderly limit base (arrayLiteral nested c) := by
  simp only [arrayLiteral, current_bind]
  unfold Orderly
  rw [bind_meets]
  exact expressionList_orderly hnested _ hbase

/-- An expression inside begins behind the first token, so one level less is enough for it. -/
theorem operand_orderly (c : Cursor) : Orderly (limit + 1) c (operand nested c) := by
  have hlt (h : c.current.kind ≠ .finish) : c.advance.left < c.left :=
    Cursor.left_advance_lt (Cursor.left_pos_of_current h)
  have hreach : c.Reach c.advance := .advance .refl
  rw [operand_run]
  split
  · exact .refl
  · exact integerLiteral_orderly .refl
  · exact .refl
  · exact .refl
  · exact .refl
  case h_6 h | h_7 h | h_8 h =>
    exact (unary_orderly hnested .refl).earlier hreach (hlt (by simp [h]))
  case h_9 h => exact (grouped_orderly hnested .refl).earlier hreach (hlt (by simp [h]))
  case h_10 h => exact conditional_orderly hnested (hlt (by simp [h]))
  case h_11 h => exact functionLiteral_orderly hnested (hlt (by simp [h]))
  case h_12 h =>
    exact (arrayLiteral_orderly hnested .refl).earlier hreach (hlt (by simp [h]))
  case h_13 h =>
    exact (hashLiteral_orderly hnested .refl).earlier hreach (hlt (by simp [h]))
  · exact orderly_refuse .refl _

theorem continuation_orderly (left : Node) (hbase : base.Reach c.advance) :
    Orderly limit base (continuation nested left c) := by
  rw [continuation_run]
  split
  · simp only [callRest, current_bind]
    unfold Orderly
    rw [bind_meets]
    exact expressionList_orderly hnested _ hbase
  · simp only [indexRest, current_bind, advance_bind]
    refine orderly_bind hbase (hnested _ _) fun place c₁ h₁ => ?_
    exact orderly_expect (hbase.trans h₁) fun _ => (hbase.trans h₁).advance
  · simp only [infixRest, current_bind, advance_bind]
    exact orderly_bind hbase (hnested _ _) fun right c₁ h₁ => hbase.trans h₁

/-- Every operator is taken before the expression behind it is parsed. -/
theorem climb_orderly (strength : Int) (fuel : Nat) (left : Node)
    (hbase : base.Reach c) (hfuel : c.left < fuel) :
    Orderly (limit + 1) base (climb nested strength fuel left c) := by
  induction fuel generalizing left c with
  | zero => omega
  | succ fuel ih =>
      simp only [climb, cursor_bind, ite_run, pure_run, advance_bind]
      split
      next => exact hbase
      next hgo =>
        simp only [Bool.or_eq_true, Bool.not_eq_true', not_or, Bool.not_eq_false] at hgo
        have hne := continues_ne_finish hgo.2
        have hpos := Cursor.left_pos_of_ahead hne
        have hpos' : 0 < c.advance.left :=
          Cursor.left_pos_of_current (by rwa [Cursor.advance_current])
        have hlt := Cursor.left_advance_lt hpos
        refine orderly_bind hbase.advance
          ((continuation_orderly hnested left .refl).earlier (.advance .refl)
            (Cursor.left_advance_lt hpos')) fun longer c₁ h₁ => ?_
        have hle := h₁.left_le
        exact ih longer (hbase.advance.trans h₁) (by omega)

end Nested

/-- By induction on the levels: the parser gives up only if as many tokens are left as it has
levels. -/
theorem expression_orderly (levels : Nat) (strength : Int) (c : Cursor) :
    Orderly levels c (expression levels strength c) := by
  induction levels generalizing strength c with
  | zero => exact ⟨.refl, Nat.zero_le _⟩
  | succ levels ih =>
      simp only [expression]
      refine orderly_bind .refl (operand_orderly ih c) fun first c₁ h₁ => ?_
      simp only [cursor_bind]
      exact climb_orderly ih strength _ first h₁ (Cursor.left_le_turns c₁)

/-- The statements of a program are read to the end: a program is never refused,
and given up only if there are as many tokens left as levels to follow. -/
theorem programStatements_meets {limit : Nat} {nested : Nested}
    (hnested : ∀ strength c, Orderly limit c (nested strength c))
    (fuel : Nat) (read : List Node) {base c : Cursor} (hbase : base.Reach c)
    (hfuel : c.left < fuel) :
    (programStatements nested fuel read c).Meets (fun _ c' => base.Reach c')
      (fun _ => False) (fun c' => base.Reach c' ∧ limit ≤ base.left) := by
  induction fuel generalizing read c with
  | zero => omega
  | succ fuel ih =>
      simp only [programStatements, current_bind, ite_run, pure_run]
      split
      next => exact hbase
      next hcurrent =>
        have hpos := Cursor.left_pos_of_current hcurrent
        rw [bind_meets]
        refine (recovering_meets .refl (statement_orderly hnested .refl)).mono
          (fun found c₁ h₁ => ?_) (fun _ h => h) fun c₁ h₁ => ?_
        · have hlt := h₁.left_advance_lt hpos
          exact ih _ (hbase.trans h₁).advance (by omega)
        · exact ⟨hbase.trans h₁.1, Nat.le_trans h₁.2 hbase.left_le⟩

/-- Every statement is recovered from, so a program is never refused. -/
theorem programStatements_ne_refused (levels : Nat) (c c' : Cursor) :
    programStatements (expression levels) c.turns [] c ≠ .refused c' := by
  intro heq
  have hmeets := programStatements_meets (expression_orderly levels) c.turns [] .refl
    (Cursor.left_le_turns c)
  rw [heq] at hmeets
  exact hmeets

end Parse

namespace Reading

/-- What a reading tells of the outcome of a program's statements. -/
def ofStatements : Parsed (List Node) → Reading
  | .done statements c => .parsed (.program statements) c.diagnostics
  | .refused c => .parsed (.program []) c.diagnostics
  | .tooDeep c => .tooDeep c.diagnostics

theorem ofCursor_eq (levels : Nat) (c : Cursor) :
    ofCursor levels c =
      ofStatements (Parse.programStatements (Parse.expression levels) c.turns [] c) := by
  unfold ofCursor Parse.program
  rw [Parse.cursor_bind, Parse.bind_run]
  cases Parse.programStatements (Parse.expression levels) c.turns [] c <;> rfl

/-- With more levels to follow than there are tokens left, parsing comes to an
end with a program. -/
theorem ofCursor_parsed {levels : Nat} {c : Cursor} (h : c.left < levels) :
    ∃ statements diagnostics,
      ofCursor levels c = .parsed (.program statements) diagnostics := by
  have hmeets := Parse.programStatements_meets (Parse.expression_orderly levels)
    c.turns [] .refl (Cursor.left_le_turns c)
  rw [ofCursor_eq]
  revert hmeets
  cases Parse.programStatements (Parse.expression levels) c.turns [] c with
  | done statements after => exact fun _ => ⟨statements, after.diagnostics, rfl⟩
  | refused after => exact fun h => h.elim
  | tooDeep after => exact fun hdeep => absurd hdeep.2 (by omega)

/-- More levels than tokens are enough for any list of tokens. -/
theorem ofTokens_parsed {levels : Nat} {tokens : List Token}
    (h : tokens.length < levels) :
    ∃ statements diagnostics,
      ofTokens levels tokens = .parsed (.program statements) diagnostics :=
  ofCursor_parsed (Nat.lt_of_le_of_lt (Cursor.left_start_le _ _ _) h)

end Reading

end Scriptlet
