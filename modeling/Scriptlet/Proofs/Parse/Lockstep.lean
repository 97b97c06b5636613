import Scriptlet.Proofs.Parse.Braces

/-!
Two parsers in step. Two cursors that see the same tokens up to a semicolon
outside all braces, whatever comes behind it, are kept in step by every rule:
both runs make the same trees and record the same diagnostics, and neither gets
past the semicolon. An expression ends before it, and a refused statement is
skipped to it at most, because nothing continues across a semicolon and no block
is open there.
-/

namespace Scriptlet

/-- Where two runs part: one semicolon outside all braces, with different
tokens behind it. -/
structure Barrier where
  first : Cursor
  second : Cursor
  current_eq : second.current = first.current
  semicolon : first.current.kind = .symbol .semicolon
  first_depth : first.depth = 0
  second_depth : second.depth = 0

/-- The two cursors are in step, with `n` moves to go to the barrier. -/
inductive Barrier.Twin (b : Barrier) : Nat → Cursor → Cursor → Prop where
  | here (diagnostics : List Diagnostic) :
      Twin b 0 { b.first with diagnostics } { b.second with diagnostics }
  | before {n : Nat} {c c' : Cursor} (hcurrent : c'.current = c.current)
      (hahead : c'.ahead = c.ahead) (hdepth : c'.depth = c.depth)
      (hdiagnostics : c'.diagnostics = c.diagnostics)
      (hfinish : c.current.kind ≠ .finish) (hnext : Twin b n c.advance c'.advance) :
      Twin b (n + 1) c c'

namespace Barrier

variable {b : Barrier} {n : Nat} {c c' : Cursor}

namespace Twin

theorem current_eq (h : b.Twin n c c') : c'.current = c.current := by
  cases h with
  | here diagnostics => exact b.current_eq
  | before hcurrent => exact hcurrent

theorem depth_eq (h : b.Twin n c c') : c'.depth = c.depth := by
  cases h with
  | here diagnostics => exact b.second_depth.trans b.first_depth.symm
  | before _ _ hdepth => exact hdepth

theorem diagnostics_eq (h : b.Twin n c c') : c'.diagnostics = c.diagnostics := by
  cases h with
  | here diagnostics => rfl
  | before _ _ _ hdiagnostics => exact hdiagnostics

theorem ahead_eq (h : b.Twin (n + 1) c c') : c'.ahead = c.ahead := by
  cases h with
  | before _ hahead => exact hahead

theorem advance (h : b.Twin (n + 1) c c') : b.Twin n c.advance c'.advance := by
  cases h with
  | before _ _ _ _ _ hnext => exact hnext

theorem ne_finish (h : b.Twin n c c') : c.current.kind ≠ .finish := by
  cases h with
  | here diagnostics => simp [b.semicolon]
  | before _ _ _ _ hfinish => exact hfinish

theorem landed (h : b.Twin 0 c c') :
    c.current.kind = .symbol .semicolon ∧ c.depth = 0 := by
  cases h with
  | here diagnostics => exact ⟨b.semicolon, b.first_depth⟩

/-- At the barrier the two cursors differ by what lies behind it. -/
theorem landing (h : b.Twin 0 c c') :
    c.ahead = b.first.ahead ∧ c' = { b.second with diagnostics := c.diagnostics } := by
  cases h with
  | here diagnostics => exact ⟨rfl, rfl⟩

/-- Only the semicolon itself is at the barrier. -/
theorem pos_of_kind (h : b.Twin n c c') (hkind : c.current.kind ≠ .symbol .semicolon) :
    ∃ m, n = m + 1 := by
  cases n with
  | zero => exact absurd h.landed.1 hkind
  | succ m => exact ⟨m, rfl⟩

/-- Among open braces the barrier is not reached yet. -/
theorem pos_of_depth (h : b.Twin n c c') (hdepth : 0 < c.depth) : ∃ m, n = m + 1 := by
  cases n with
  | zero => exact absurd h.landed.2 (Nat.ne_of_gt hdepth)
  | succ m => exact ⟨m, rfl⟩

private theorem record_advance (c : Cursor) (d : Diagnostic) :
    (c.record d).advance = c.advance.record d := by
  obtain ⟨current, ahead, rest, endLine, endColumn, depth, diagnostics⟩ := c
  cases rest <;> rfl

theorem record (h : b.Twin n c c') (d : Diagnostic) :
    b.Twin n (c.record d) (c'.record d) := by
  induction h with
  | here diagnostics => exact .here (diagnostics ++ [d])
  | before hcurrent hahead hdepth hdiagnostics hfinish _ ih =>
      refine .before hcurrent hahead hdepth ?_ hfinish ?_
      · simp only [Cursor.record_diagnostics, hdiagnostics]
      · rw [record_advance, record_advance]
        exact ih

/-- The barrier comes before the end, for both cursors. -/
theorem add_left_le (h : b.Twin n c c') :
    n + b.first.left ≤ c.left ∧ n + b.second.left ≤ c'.left := by
  induction h with
  | here diagnostics =>
      rw [Nat.zero_add, Nat.zero_add]
      exact ⟨Nat.le_refl _, Nat.le_refl _⟩
  | before hcurrent _ _ _ hfinish _ ih =>
      have hfirst := Cursor.left_advance_lt (Cursor.left_pos_of_current hfinish)
      have hsecond := Cursor.left_advance_lt
        (Cursor.left_pos_of_current (hcurrent ▸ hfinish))
      omega

theorem lt_turns (h : b.Twin n c c') : n < c.turns ∧ n < c'.turns := by
  have hleft := h.add_left_le
  have hfirst := Cursor.left_le_turns c
  have hsecond := Cursor.left_le_turns c'
  omega

/-- Skipping a statement begun at any depth stops at the barrier. -/
theorem synchronize (h : b.Twin n c c') (depth : Nat) :
    ∃ m, m ≤ n ∧ b.Twin m (c.synchronize depth) (c'.synchronize depth) := by
  have hgo (fuel fuel' n : Nat) (c c' : Cursor) (h : b.Twin n c c') (hfuel : n < fuel)
      (hfuel' : n < fuel') :
      ∃ m, m ≤ n ∧ b.Twin m (Cursor.synchronize.go depth fuel c)
        (Cursor.synchronize.go depth fuel' c') := by
    induction fuel generalizing fuel' n c c' with
    | zero => omega
    | succ fuel ih =>
        obtain ⟨fuel', rfl⟩ : ∃ k, fuel' = k + 1 := ⟨fuel' - 1, by omega⟩
        simp only [Cursor.synchronize.go, h.current_eq, h.depth_eq]
        split
        next => exact ⟨n, Nat.le_refl n, h⟩
        next hlow =>
          split
          next => exact ⟨n, Nat.le_refl n, h⟩
          next hgo =>
            simp only [Bool.or_eq_true, Bool.and_eq_true, decide_eq_true_eq, not_or,
              not_and, Int.not_lt] at hlow hgo
            cases n with
            | zero =>
                obtain ⟨hkind, hdepth⟩ := h.landed
                exact absurd (by omega) (hgo hkind)
            | succ n =>
                obtain ⟨m, hm, htwin⟩ := ih fuel' n _ _ h.advance (by omega) (by omega)
                exact ⟨m, by omega, htwin⟩
  exact hgo _ _ n c c' h h.lt_turns.1 h.lt_turns.2

end Twin

/-- Outcomes of two runs in step: the same value, with at least `low` and at
most `high` moves to go, or both refuse, or both give up. -/
inductive Paired (b : Barrier) (low high : Nat) {α : Type} :
    Parsed α → Parsed α → Prop where
  | done {a : α} {n : Nat} {c c' : Cursor} (h : b.Twin n c c') (hlow : low ≤ n)
      (hhigh : n ≤ high) : Paired b low high (.done a c) (.done a c')
  | refused {n : Nat} {c c' : Cursor} (h : b.Twin n c c') (hhigh : n ≤ high) :
      Paired b low high (.refused c) (.refused c')
  | tooDeep {c c' : Cursor} (h : c'.diagnostics = c.diagnostics) :
      Paired b low high (.tooDeep c) (.tooDeep c')

theorem Paired.mono {α : Type} {low high high' : Nat} {o o' : Parsed α}
    (h : b.Paired low high o o') (hle : high ≤ high') : b.Paired low high' o o' := by
  cases h with
  | done h hlow hhigh => exact .done h hlow (Nat.le_trans hhigh hle)
  | refused h hhigh => exact .refused h (Nat.le_trans hhigh hle)
  | tooDeep h => exact .tooDeep h

/-- A parser that is done on another token than a semicolon is not at the
barrier. -/
theorem Paired.raise {α : Type} {high : Nat} {o o' : Parsed α}
    {refused tooDeep : Cursor → Prop} (h : b.Paired 0 high o o')
    (hkind : o.Meets (fun _ c => c.current.kind ≠ .symbol .semicolon) refused tooDeep) :
    b.Paired 1 high o o' := by
  cases h with
  | done h _ hhigh =>
      obtain ⟨m, rfl⟩ := h.pos_of_kind hkind
      exact .done h (Nat.le_add_left 1 m) hhigh
  | refused h hhigh => exact .refused h hhigh
  | tooDeep h => exact .tooDeep h

end Barrier

namespace Parse

open Barrier

variable {α β : Type} {b : Barrier} {low high n : Nat} {c c' : Cursor} {nested : Nested}

theorem paired_bind {p p' : Parse α} {next next' : α → Parse β} {low' high' : Nat}
    (hp : b.Paired low' high' (p c) (p' c')) (hhigh : high' ≤ high)
    (hnext : ∀ a n c c', b.Twin n c c' → low' ≤ n → n ≤ high' →
      b.Paired low high (next a c) (next' a c')) :
    b.Paired low high ((p >>= next) c) ((p' >>= next') c') := by
  rw [bind_run, bind_run]
  revert hp
  generalize p c = o
  generalize p' c' = o'
  intro hp
  cases hp with
  | done h hlow hle => exact hnext _ _ _ _ h hlow hle
  | refused h hle => exact .refused h (Nat.le_trans hle hhigh)
  | tooDeep h => exact .tooDeep h

theorem paired_expect {kind : Kind} {next next' : Unit → Parse α}
    (h : b.Twin (n + 1) c c') (hhigh : n < high)
    (hnext : c.ahead.kind = kind → b.Twin n c.advance c'.advance →
      b.Paired low high (next () c.advance) (next' () c'.advance)) :
    b.Paired low high ((expect kind >>= next) c) ((expect kind >>= next') c') := by
  simp only [expect_bind, h.ahead_eq]
  split
  next hkind => exact hnext hkind h.advance
  next => exact .refused (h.record _) hhigh

/-- Behind a statement the semicolon may be the barrier. -/
theorem paired_skipIf {statement : Node} (h : b.Twin (n + 1) c c') :
    b.Paired 0 (n + 1)
      ((do skipIf (.symbol .semicolon); return statement : Parse Node) c)
      ((do skipIf (.symbol .semicolon); return statement : Parse Node) c') := by
  simp only [bind_run, skipIf, h.ahead_eq]
  by_cases hkind : c.ahead.kind = .symbol .semicolon
  · simp only [hkind, if_true]
    exact .done h.advance (Nat.zero_le n) (Nat.le_succ n)
  · simp only [hkind, if_false]
    exact .done h (Nat.zero_le _) (Nat.le_refl _)

/-- Moving on to a token that is no semicolon does not reach the barrier. -/
theorem twin_advance {kind : Kind} (h : b.Twin n c.advance c'.advance)
    (hahead : c.ahead.kind = kind) (hkind : kind ≠ .symbol .semicolon) :
    ∃ m, n = m + 1 :=
  h.pos_of_kind (by rw [Cursor.advance_current, hahead]; exact hkind)

theorem integerLiteral_paired (h : b.Twin (n + 1) c c') :
    b.Paired 1 (n + 1) (integerLiteral c) (integerLiteral c') := by
  simp only [integerLiteral_run, h.current_eq]
  split
  · split
    · exact .done h (Nat.le_add_left 1 n) (Nat.le_refl _)
    · exact .refused (h.record _) (Nat.le_refl _)
  · exact .refused (h.record _) (Nat.le_refl _)

theorem identAhead_paired (h : b.Twin (n + 1) c c') :
    b.Paired 1 (n + 1) (identAhead c) (identAhead c') := by
  refine paired_expect h (Nat.lt_succ_self n) fun hkind htwin => ?_
  obtain ⟨m, rfl⟩ := twin_advance htwin hkind (by simp)
  simp only [current_bind, pure_run, htwin.current_eq]
  exact .done htwin (Nat.le_add_left 1 m) (Nat.le_succ _)

theorem moreParameters_paired (fuel fuel' : Nat) (read : List Ident)
    (h : b.Twin (n + 1) c c') (hfuel : n < fuel) (hfuel' : n < fuel') :
    b.Paired 1 (n + 1) (moreParameters fuel read c) (moreParameters fuel' read c') := by
  induction fuel generalizing fuel' read n c c' with
  | zero => omega
  | succ fuel ih =>
      obtain ⟨fuel', rfl⟩ : ∃ k, fuel' = k + 1 := ⟨fuel' - 1, by omega⟩
      simp only [moreParameters, aheadIs_bind, ite_run, advance_bind, pure_run,
        decide_eq_true_eq, h.ahead_eq]
      split
      next hcomma =>
        obtain ⟨m, rfl⟩ := twin_advance h.advance hcomma (by simp)
        refine paired_bind (identAhead_paired h.advance) (Nat.le_succ _)
          fun name k c₁ c₁' h₁ hlow hhigh => ?_
        obtain ⟨k, rfl⟩ := Nat.exists_eq_add_of_le' hlow
        exact (ih fuel' _ h₁ (by omega) (by omega)).mono (by omega)
      next => exact .done h (Nat.le_add_left 1 n) (Nat.le_refl _)

theorem parameters_paired (h : b.Twin (n + 1) c c') :
    b.Paired 1 (n + 1) (parameters c) (parameters c') := by
  simp only [parameters, aheadIs_bind, ite_run, advance_bind, pure_run,
    decide_eq_true_eq, h.ahead_eq]
  split
  next hclose =>
    obtain ⟨m, rfl⟩ := twin_advance h.advance hclose (by simp)
    exact .done h.advance (Nat.le_add_left 1 m) (Nat.le_succ _)
  next =>
    refine paired_bind (identAhead_paired h) (Nat.le_refl _)
      fun first k c₁ c₁' h₁ hlow hhigh => ?_
    obtain ⟨k, rfl⟩ := Nat.exists_eq_add_of_le' hlow
    have hturns := h₁.lt_turns
    simp only [cursor_bind]
    refine paired_bind (moreParameters_paired _ _ _ h₁ (by omega) (by omega)) hhigh
      fun names k c₂ c₂' h₂ hlow hhigh' => ?_
    obtain ⟨k, rfl⟩ := Nat.exists_eq_add_of_le' hlow
    refine paired_expect h₂ (by omega) fun hclose h₃ => ?_
    obtain ⟨k, rfl⟩ := twin_advance h₃ hclose (by simp)
    exact .done h₃ (Nat.le_add_left 1 k) (by omega)

section Nested

variable (hnested : ∀ strength n c c', b.Twin n c c' →
  b.Paired 1 n (nested strength c) (nested strength c'))
include hnested

theorem moreItems_paired (fuel fuel' : Nat) (read : List Node)
    (h : b.Twin (n + 1) c c') (hfuel : n < fuel) (hfuel' : n < fuel') :
    b.Paired 1 (n + 1) (moreItems nested fuel read c) (moreItems nested fuel' read c') := by
  induction fuel generalizing fuel' read n c c' with
  | zero => omega
  | succ fuel ih =>
      obtain ⟨fuel', rfl⟩ : ∃ k, fuel' = k + 1 := ⟨fuel' - 1, by omega⟩
      simp only [moreItems, aheadIs_bind, ite_run, advance_bind, pure_run,
        decide_eq_true_eq, h.ahead_eq]
      split
      next hcomma =>
        obtain ⟨m, rfl⟩ := twin_advance h.advance hcomma (by simp)
        refine paired_bind (hnested _ _ _ _ h.advance.advance) (by omega)
          fun item k c₁ c₁' h₁ hlow hhigh => ?_
        obtain ⟨k, rfl⟩ := Nat.exists_eq_add_of_le' hlow
        exact (ih fuel' _ h₁ (by omega) (by omega)).mono (by omega)
      next => exact .done h (Nat.le_add_left 1 n) (Nat.le_refl _)

theorem expressionList_paired {closing : Kind} (hclosing : closing ≠ .symbol .semicolon)
    (h : b.Twin (n + 1) c c') :
    b.Paired 1 (n + 1) (expressionList nested closing c)
      (expressionList nested closing c') := by
  simp only [expressionList, aheadIs_bind, ite_run, advance_bind, pure_run,
    decide_eq_true_eq, h.ahead_eq]
  split
  next hclose =>
    obtain ⟨m, rfl⟩ := twin_advance h.advance hclose hclosing
    exact .done h.advance (Nat.le_add_left 1 m) (Nat.le_succ _)
  next =>
    refine paired_bind (hnested _ _ _ _ h.advance) (Nat.le_succ n)
      fun first k c₁ c₁' h₁ hlow hhigh => ?_
    obtain ⟨k, rfl⟩ := Nat.exists_eq_add_of_le' hlow
    have hturns := h₁.lt_turns
    simp only [cursor_bind]
    refine paired_bind (moreItems_paired hnested _ _ _ h₁ (by omega) (by omega))
      (by omega) fun items k c₂ c₂' h₂ hlow hhigh' => ?_
    obtain ⟨k, rfl⟩ := Nat.exists_eq_add_of_le' hlow
    refine paired_expect h₂ (by omega) fun hclose h₃ => ?_
    obtain ⟨k, rfl⟩ := twin_advance h₃ hclose hclosing
    exact .done h₃ (Nat.le_add_left 1 k) (by omega)

theorem hashPairs_paired (fuel fuel' : Nat) (read : List (Node × Node))
    (h : b.Twin (n + 1) c c') (hfuel : n < fuel) (hfuel' : n < fuel') :
    b.Paired 1 (n + 1) (hashPairs nested fuel read c) (hashPairs nested fuel' read c') := by
  induction fuel generalizing fuel' read n c c' with
  | zero => omega
  | succ fuel ih =>
      obtain ⟨fuel', rfl⟩ : ∃ k, fuel' = k + 1 := ⟨fuel' - 1, by omega⟩
      simp only [hashPairs, advance_bind]
      refine paired_bind (hnested _ _ _ _ h.advance) (Nat.le_succ n)
        fun key k c₁ c₁' h₁ hlow hkey => ?_
      obtain ⟨k, rfl⟩ := Nat.exists_eq_add_of_le' hlow
      refine paired_expect h₁ (by omega) fun hcolon h₂ => ?_
      obtain ⟨k, rfl⟩ := twin_advance h₂ hcolon (by simp)
      simp only [advance_bind]
      refine paired_bind (hnested _ _ _ _ h₂.advance) (by omega)
        fun value i c₃ c₃' h₃ hlow hvalue => ?_
      obtain ⟨i, rfl⟩ := Nat.exists_eq_add_of_le' hlow
      simp only [aheadIs_bind, ite_run, advance_bind, pure_run, decide_eq_true_eq,
        h₃.ahead_eq]
      split
      next hcomma =>
        obtain ⟨i, rfl⟩ := twin_advance h₃.advance hcomma (by simp)
        exact (ih fuel' _ h₃.advance (by omega) (by omega)).mono (by omega)
      next => exact .done h₃ (Nat.le_add_left 1 i) (by omega)

theorem hashLiteral_paired (h : b.Twin (n + 1) c c') :
    b.Paired 1 (n + 1) (hashLiteral nested c) (hashLiteral nested c') := by
  simp only [hashLiteral, current_bind, aheadIs_bind, ite_run, advance_bind, pure_run,
    cursor_bind, decide_eq_true_eq, h.ahead_eq, h.current_eq]
  split
  next hclose =>
    obtain ⟨m, rfl⟩ := twin_advance h.advance hclose (by simp)
    exact .done h.advance (Nat.le_add_left 1 m) (Nat.le_succ _)
  next =>
    have hturns := h.lt_turns
    refine paired_bind (hashPairs_paired hnested _ _ _ h (by omega) (by omega))
      (Nat.le_refl _) fun pairs k c₁ c₁' h₁ hlow hhigh => ?_
    obtain ⟨k, rfl⟩ := Nat.exists_eq_add_of_le' hlow
    refine paired_expect h₁ (by omega) fun hclose h₂ => ?_
    obtain ⟨k, rfl⟩ := twin_advance h₂ hclose (by simp)
    exact .done h₂ (Nat.le_add_left 1 k) (by omega)

/-- A value behind the current token, up to the end of its statement. -/
theorem value_paired {make : Node → Node} (h : b.Twin n c c') (hhigh : n ≤ high) :
    b.Paired 0 high
      ((do
        let value ← nested lowest
        skipIf (.symbol .semicolon)
        return make value : Parse Node) c)
      ((do
        let value ← nested lowest
        skipIf (.symbol .semicolon)
        return make value : Parse Node) c') := by
  refine paired_bind (hnested _ _ _ _ h) hhigh fun value k c₁ c₁' h₁ hlow hle => ?_
  obtain ⟨k, rfl⟩ := Nat.exists_eq_add_of_le' hlow
  exact (paired_skipIf h₁).mono (by omega)

theorem bindingStatement_paired (h : b.Twin (n + 1) c c') :
    b.Paired 0 (n + 1) (bindingStatement nested c) (bindingStatement nested c') := by
  simp only [bindingStatement, current_bind, h.current_eq]
  refine paired_bind (identAhead_paired h) (Nat.le_refl _)
    fun name k c₁ c₁' h₁ hlow hhigh => ?_
  obtain ⟨k, rfl⟩ := Nat.exists_eq_add_of_le' hlow
  refine paired_expect h₁ (by omega) fun hassign h₂ => ?_
  obtain ⟨k, rfl⟩ := twin_advance h₂ hassign (by simp)
  simp only [advance_bind]
  exact value_paired hnested h₂.advance (by omega)

theorem returnStatement_paired (h : b.Twin (n + 1) c c') :
    b.Paired 0 (n + 1) (returnStatement nested c) (returnStatement nested c') := by
  simp only [returnStatement, current_bind, cursor_bind, ite_run, advance_bind,
    h.ahead_eq, h.current_eq]
  split
  next => exact paired_skipIf h
  next => exact value_paired hnested h.advance (Nat.le_succ n)

theorem statement_paired (h : b.Twin n c c') :
    b.Paired 0 n (statement nested c) (statement nested c') := by
  simp only [statement_run, h.current_eq]
  split
  next hkind =>
    obtain ⟨m, rfl⟩ := h.pos_of_kind (by simp [hkind])
    exact bindingStatement_paired hnested h
  next hkind =>
    obtain ⟨m, rfl⟩ := h.pos_of_kind (by simp [hkind])
    exact returnStatement_paired hnested h
  next =>
    simp only [expressionStatement, current_bind, h.current_eq]
    exact value_paired hnested h (Nat.le_refl n)

/-- Recovery from a statement leaves both runs at or before the barrier. -/
theorem recovering_paired (depth : Nat) (h : b.Twin n c c') :
    b.Paired 0 n (recovering depth (statement nested) c)
      (recovering depth (statement nested) c') := by
  have hstatement := statement_paired hnested h
  unfold recovering
  revert hstatement
  generalize statement nested c = o
  generalize statement nested c' = o'
  intro hstatement
  cases hstatement with
  | done h₁ hlow hhigh =>
      simp only [h.diagnostics_eq, h₁.diagnostics_eq]
      split
      · exact .done h₁ hlow hhigh
      · exact .done h₁ hlow hhigh
  | refused h₁ hhigh =>
      obtain ⟨m, hm, htwin⟩ := h₁.synchronize depth
      exact .done htwin (Nat.zero_le m) (by omega)
  | tooDeep hdiagnostics => exact .tooDeep hdiagnostics

theorem blockStatements_paired {depth : Nat} (hdepth : 0 < depth) (fuel fuel' : Nat)
    (read : List Node) (h : b.Twin n c c') (hfuel : n < fuel) (hfuel' : n < fuel') :
    b.Paired 0 n (blockStatements nested depth fuel read c)
      (blockStatements nested depth fuel' read c') := by
  induction fuel generalizing fuel' read n c c' with
  | zero => omega
  | succ fuel ih =>
      obtain ⟨fuel', rfl⟩ : ∃ k, fuel' = k + 1 := ⟨fuel' - 1, by omega⟩
      simp only [blockStatements, cursor_bind, ite_run, pure_run, refuse_bind]
      simp only [h.depth_eq, h.current_eq, h.ne_finish, if_false]
      split
      next => exact .done h (Nat.zero_le n) (Nat.le_refl n)
      next hopen =>
        obtain ⟨m, rfl⟩ := h.pos_of_depth (by omega)
        refine paired_bind (recovering_paired hnested depth h) (Nat.le_refl _)
          fun found k c₁ c₁' h₁ _ hhigh => ?_
        simp only [cursor_bind, ite_run, advance_bind]
        simp only [h₁.depth_eq]
        split
        next hinside =>
          obtain ⟨k, rfl⟩ := h₁.pos_of_depth (by omega)
          exact (ih fuel' _ h₁.advance (by omega) (by omega)).mono (by omega)
        next houtside =>
          obtain ⟨fuel, rfl⟩ : ∃ j, fuel = j + 1 := ⟨fuel - 1, by omega⟩
          obtain ⟨fuel', rfl⟩ : ∃ j, fuel' = j + 1 := ⟨fuel' - 1, by omega⟩
          simp only [blockStatements, cursor_bind, ite_run, pure_run]
          rw [h₁.depth_eq, if_pos (by omega), if_pos (by omega)]
          exact .done h₁ (Nat.zero_le k) hhigh

/-- An expression in brackets behind the current token. -/
theorem enclosed_paired {closing : Kind} (hclosing : closing ≠ .symbol .semicolon)
    {make : Node → Node} (h : b.Twin (n + 1) c c') :
    b.Paired 1 (n + 1)
      ((do
        let inner ← nested lowest
        expect closing
        return make inner : Parse Node) c.advance)
      ((do
        let inner ← nested lowest
        expect closing
        return make inner : Parse Node) c'.advance) := by
  refine paired_bind (hnested _ _ _ _ h.advance) (Nat.le_succ n)
    fun inner k c₁ c₁' h₁ hlow hhigh => ?_
  obtain ⟨k, rfl⟩ := Nat.exists_eq_add_of_le' hlow
  refine paired_expect h₁ (by omega) fun hclose h₂ => ?_
  obtain ⟨k, rfl⟩ := twin_advance h₂ hclose hclosing
  exact .done h₂ (Nat.le_add_left 1 k) (by omega)

/-- An operand behind a sign or an operator. -/
theorem operandBehind_paired {strength : Int} {make : Node → Node}
    (h : b.Twin (n + 1) c c') :
    b.Paired 1 (n + 1)
      ((do
        let operand ← nested strength
        return make operand : Parse Node) c.advance)
      ((do
        let operand ← nested strength
        return make operand : Parse Node) c'.advance) := by
  refine paired_bind (hnested _ _ _ _ h.advance) (Nat.le_succ n)
    fun operand k c₁ c₁' h₁ hlow hhigh => ?_
  exact .done h₁ hlow (by omega)

theorem continuation_paired (left : Node) (h : b.Twin (n + 1) c c') :
    b.Paired 1 (n + 1) (continuation nested left c) (continuation nested left c') := by
  simp only [continuation_run, h.current_eq]
  split
  next =>
    simp only [callRest, current_bind, h.current_eq]
    refine paired_bind (expressionList_paired hnested (by simp) h) (Nat.le_refl _)
      fun arguments k c₁ c₁' h₁ hlow hhigh => ?_
    exact .done h₁ hlow hhigh
  next =>
    simp only [indexRest, current_bind, advance_bind, h.current_eq]
    exact enclosed_paired hnested (by simp) h
  next =>
    simp only [infixRest, current_bind, advance_bind, h.current_eq]
    exact operandBehind_paired hnested h

theorem climb_paired (strength : Int) (fuel fuel' : Nat) (left : Node)
    (h : b.Twin (n + 1) c c') (hfuel : n < fuel) (hfuel' : n < fuel') :
    b.Paired 1 (n + 1) (climb nested strength fuel left c)
      (climb nested strength fuel' left c') := by
  induction fuel generalizing fuel' left n c c' with
  | zero => omega
  | succ fuel ih =>
      obtain ⟨fuel', rfl⟩ : ∃ k, fuel' = k + 1 := ⟨fuel' - 1, by omega⟩
      simp only [climb, cursor_bind, ite_run, pure_run, advance_bind, h.ahead_eq]
      split
      next => exact .done h (Nat.le_add_left 1 n) (Nat.le_refl _)
      next hgo =>
        simp only [Bool.or_eq_true, decide_eq_true_eq, not_or] at hgo
        obtain ⟨m, rfl⟩ := twin_advance h.advance rfl hgo.1.1
        refine paired_bind (continuation_paired hnested left h.advance) (Nat.le_succ _)
          fun longer k c₁ c₁' h₁ hlow hhigh => ?_
        obtain ⟨k, rfl⟩ := Nat.exists_eq_add_of_le' hlow
        exact (ih fuel' longer h₁ (by omega) (by omega)).mono (by omega)

section Braced

variable (hbraced : ∀ strength depth c, Cursor.Before depth c →
  Parsed.Braced depth (nested strength c))
include hbraced

/-- A block ends on its closing brace, so before the barrier. -/
theorem blockAhead_paired (h : b.Twin (n + 1) c c') :
    b.Paired 1 (n + 1) (blockAhead nested c) (blockAhead nested c') := by
  refine paired_expect h (Nat.lt_succ_self n) fun hopen h₁ => ?_
  obtain ⟨m, rfl⟩ := twin_advance h₁ hopen (by simp)
  have hdepth : c.advance.depth = c.depth + 1 := by
    simp [hopen, Cursor.depthAfter]
  refine Paired.raise ?_ ((block_closed hbraced hdepth).mono ?_ (fun _ h => h) fun _ h => h)
  · have hturns := h₁.advance.lt_turns
    simp only [block, cursor_bind, advance_bind, h₁.depth_eq, h₁.current_eq]
    refine paired_bind (blockStatements_paired hnested (by omega) _ _ _ h₁.advance
      hturns.1 hturns.2) (by omega) fun statements k c₂ c₂' h₂ hlow hhigh => ?_
    exact .done h₂ hlow (by omega)
  · rintro statements c₂ ⟨-, hclose⟩
    simp [hclose]

theorem conditional_paired (h : b.Twin (n + 1) c c') :
    b.Paired 1 (n + 1) (conditional nested c) (conditional nested c') := by
  simp only [conditional, current_bind, h.current_eq]
  refine paired_expect h (Nat.lt_succ_self n) fun hopen h₁ => ?_
  obtain ⟨m, rfl⟩ := twin_advance h₁ hopen (by simp)
  simp only [advance_bind]
  refine paired_bind (hnested _ _ _ _ h₁.advance) (by omega)
    fun condition k c₂ c₂' h₂ hlow hhigh => ?_
  obtain ⟨k, rfl⟩ := Nat.exists_eq_add_of_le' hlow
  refine paired_expect h₂ (by omega) fun hclose h₃ => ?_
  obtain ⟨k, rfl⟩ := twin_advance h₃ hclose (by simp)
  refine paired_bind (blockAhead_paired hnested hbraced h₃) (by omega)
    fun consequence i c₄ c₄' h₄ hlow hhigh' => ?_
  obtain ⟨i, rfl⟩ := Nat.exists_eq_add_of_le' hlow
  simp only [aheadIs_bind, ite_run, advance_bind, pure_run, decide_eq_true_eq, h₄.ahead_eq]
  split
  next helse =>
    obtain ⟨i, rfl⟩ := twin_advance h₄.advance helse (by simp)
    refine paired_bind (blockAhead_paired hnested hbraced h₄.advance) (by omega)
      fun alternative j c₅ c₅' h₅ hlow hhigh'' => ?_
    exact .done h₅ hlow (by omega)
  next => exact .done h₄ (Nat.le_add_left 1 i) (by omega)

theorem functionLiteral_paired (h : b.Twin (n + 1) c c') :
    b.Paired 1 (n + 1) (functionLiteral nested c) (functionLiteral nested c') := by
  simp only [functionLiteral, current_bind, h.current_eq]
  refine paired_expect h (Nat.lt_succ_self n) fun hopen h₁ => ?_
  obtain ⟨m, rfl⟩ := twin_advance h₁ hopen (by simp)
  refine paired_bind (parameters_paired h₁) (Nat.le_succ _)
    fun names k c₂ c₂' h₂ hlow hhigh => ?_
  obtain ⟨k, rfl⟩ := Nat.exists_eq_add_of_le' hlow
  refine paired_bind (blockAhead_paired hnested hbraced h₂) (by omega)
    fun body i c₃ c₃' h₃ hlow hhigh' => ?_
  exact .done h₃ hlow (by omega)

theorem operand_paired (h : b.Twin n c c') : b.Paired 1 n (operand nested c) (operand nested c') := by
  by_cases hsemicolon : c.current.kind = .symbol .semicolon
  · simp only [operand_run, h.current_eq, hsemicolon]
    exact .refused (h.record _) (Nat.le_refl n)
  obtain ⟨m, rfl⟩ := h.pos_of_kind hsemicolon
  simp only [operand_run, h.current_eq]
  split
  next => exact .done h (Nat.le_add_left 1 m) (Nat.le_refl _)
  next => exact integerLiteral_paired h
  next => exact .done h (Nat.le_add_left 1 m) (Nat.le_refl _)
  next => exact .done h (Nat.le_add_left 1 m) (Nat.le_refl _)
  next => exact .done h (Nat.le_add_left 1 m) (Nat.le_refl _)
  case h_6 | h_7 | h_8 =>
    simp only [unary, current_bind, advance_bind, h.current_eq]
    exact operandBehind_paired hnested h
  next =>
    simp only [grouped, advance_bind]
    exact enclosed_paired hnested (by simp) h
  next => exact conditional_paired hnested hbraced h
  next => exact functionLiteral_paired hnested hbraced h
  next =>
    simp only [arrayLiteral, current_bind, h.current_eq]
    refine paired_bind (expressionList_paired hnested (by simp) h) (Nat.le_refl _)
      fun elements k c₁ c₁' h₁ hlow hhigh => ?_
    exact .done h₁ hlow hhigh
  next => exact hashLiteral_paired hnested h
  next => exact .refused (h.record _) (Nat.le_refl _)

end Braced

end Nested

/-- An expression is parsed alike in both runs and ends before the barrier. -/
theorem expression_paired (levels : Nat) (strength : Int) (n : Nat) (c c' : Cursor)
    (h : b.Twin n c c') :
    b.Paired 1 n (expression levels strength c) (expression levels strength c') := by
  induction levels generalizing strength n c c' with
  | zero => exact .tooDeep h.diagnostics_eq
  | succ levels ih =>
      simp only [expression]
      refine paired_bind (operand_paired ih (expression_braced levels) h) (Nat.le_refl n)
        fun first k c₁ c₁' h₁ hlow hhigh => ?_
      obtain ⟨k, rfl⟩ := Nat.exists_eq_add_of_le' hlow
      have hturns := h₁.lt_turns
      simp only [cursor_bind]
      exact (climb_paired ih strength _ _ first h₁ (by omega) (by omega)).mono hhigh

end Parse

end Scriptlet
