import Scriptlet.Proofs.Lex.Order
import Scriptlet.Proofs.Parse.Termination

/-!
Which tokens diagnostics blame. A parser blames the token that it is on or the one ahead,
and skipping the rest of a statement may start before the token just blamed. But when a
parser has come to the end of an expression or has skipped to the end of a statement, it
stands no earlier than at the last token blamed, and it moves on before it blames again.
So the diagnostics of a text are in the order of its tokens, and none is blamed twice; only
the end of the text is missed once for each block that is still open there.
-/

namespace Scriptlet

namespace Diagnostic

/-- The position of the token that a diagnostic is about. -/
def position? : Diagnostic → Option (Nat × Nat)
  | .expected _ found | .noExpression found => some found.position
  | .badInteger _ => none

/-- The message ends in this position. -/
def Names (d : Diagnostic) (p : Nat × Nat) : Prop :=
  ∃ words, d.message =
    words ++ "(line " ++ toString p.1 ++ ", col " ++ toString p.2 ++ ")"

/-- A number is read from the right up to the blank before it. -/
private theorem digits_unique {m n : Nat} {xs ys : List Char}
    (h : (toString m).toList.reverse ++ ' ' :: xs = (toString n).toList.reverse ++ ' ' :: ys) :
    m = n ∧ xs = ys := by
  have hdigits (k : Nat) (zs : List Char) :
      ((toString k).toList.reverse ++ ' ' :: zs).takeWhile Char.isDigit =
        (Nat.toDigits 10 k).reverse := by
    have hall : ∀ c ∈ (Nat.toDigits 10 k).reverse, c.isDigit = true := fun c hc =>
      Nat.isDigit_of_mem_toDigits (by omega) (by omega) (List.mem_reverse.mp hc)
    rw [show (toString k).toList = Nat.toDigits 10 k from Nat.toList_repr,
      List.takeWhile_append_of_pos hall]
    simp
  have hsame : Nat.toDigits 10 m = Nat.toDigits 10 n := by
    rw [← List.reverse_inj, ← hdigits m xs, ← hdigits n ys, h]
  obtain rfl := Numeral.toDigits_injective hsame
  exact ⟨rfl, by simpa using h⟩

private theorem names_unique {words words' : String} {p q : Nat × Nat}
    (h : words ++ "(line " ++ toString p.1 ++ ", col " ++ toString p.2 ++ ")" =
      words' ++ "(line " ++ toString q.1 ++ ", col " ++ toString q.2 ++ ")") : p = q := by
  have hreverse := congrArg (fun s => s.toList.reverse) h
  have hcol : ", col ".toList.reverse = ' ' :: "loc ,".toList := by decide
  have hline : "(line ".toList.reverse = ' ' :: "enil(".toList := by decide
  simp only [String.toList_append, List.reverse_append, hcol, hline, List.cons_append,
    List.append_cancel_left_eq] at hreverse
  obtain ⟨hcolumns, hreverse⟩ := digits_unique hreverse
  obtain ⟨hlines, _⟩ := digits_unique (List.append_cancel_left hreverse)
  exact Prod.ext hlines hcolumns

/-- A message ends in the position of its token, if it has one, and in no other. -/
theorem names_iff {d : Diagnostic} {p : Nat × Nat} : d.Names p ↔ d.position? = some p := by
  have htoken {t : Token} {front : String} : (∃ words, front ++ t.place =
      words ++ "(line " ++ toString p.1 ++ ", col " ++ toString p.2 ++ ")") ↔
      some t.position = some p := by
    simp only [Token.place, ← String.append_assoc]
    constructor
    · rintro ⟨words, h⟩
      exact congrArg some (names_unique h)
    · rintro ⟨⟩
      exact ⟨front, rfl⟩
  unfold Names message
  cases d with
  | expected wanted found => exact htoken
  | noExpression found => exact htoken
  | badInteger text =>
      constructor
      · rintro ⟨words, h⟩
        have hlast := congrArg (fun s => s.toList.reverse.head?) h
        simp at hlast
      · exact fun h => nomatch h

end Diagnostic

/-- Of two positions of a text that ends at `finish` the first is before the second, or
both are at the end. -/
def Precedes (finish p q : Nat × Nat) : Prop :=
  p.lexLt q ∨ p = finish ∧ q = finish

variable {finish : Nat × Nat} {depth inner : Nat} {c : Cursor}

theorem Precedes.trans {p q r : Nat × Nat} (hpq : Precedes finish p q)
    (hqr : Precedes finish q r) : Precedes finish p r := by
  rcases hpq with hpq | ⟨rfl, rfl⟩
  · rcases hqr with hqr | ⟨rfl, rfl⟩
    · exact .inl (lexLt_trans hpq hqr)
    · exact .inl hpq
  · exact hqr

/-- The positions of two diagnostics, if both have one, are in order. -/
def Diagnostic.InOrder (finish : Nat × Nat) (d e : Diagnostic) : Prop :=
  ∀ p ∈ d.position?, ∀ q ∈ e.position?, Precedes finish p q

/-- A kind of token that neither opens nor closes a block, and that ends no statement. -/
def Kind.isPlain : Kind → Bool
  | .finish | .symbol .semicolon | .symbol .leftBrace | .symbol .rightBrace => false
  | _ => true

/-- A kind of token at which skipping does not stop while the block is open. -/
def Kind.isSkipped : Kind → Bool
  | .finish | .symbol .semicolon => false
  | _ => true

theorem Kind.isSkipped_of_isPlain {kind : Kind} (h : kind.isPlain = true) :
    kind.isSkipped = true := by
  unfold isSkipped
  split
  · cases h
  · cases h
  · rfl

theorem Kind.isPlain_of_continues {kind : Kind} (h : Parse.continues kind = true) :
    kind.isPlain = true := by
  unfold isPlain
  split
  · cases h
  · cases h
  · cases h
  · cases h
  · rfl

namespace Cursor

theorem depthAfter_isPlain {kind : Kind} (h : kind.isPlain = true) (depth : Nat) :
    depthAfter depth kind = depth := by
  unfold depthAfter
  split
  · cases h
  · cases h
  · rfl

/-- The positions of the tokens from the current one on, the finishing one last. -/
def positions (c : Cursor) : List (Nat × Nat) :=
  c.current.position :: c.ahead.position ::
    (c.rest.map Token.position ++ [(c.endLine, c.endColumn)])

/-- The tokens still to come are in order and so are the diagnostics, which have none but
the positions that are allowed. -/
structure Blames (finish : Nat × Nat) (allowed : Nat × Nat → Prop) (c : Cursor) : Prop where
  finish_eq : (c.endLine, c.endColumn) = finish
  coming : c.positions.Pairwise (Precedes finish)
  told : c.diagnostics.Pairwise (Diagnostic.InOrder finish)
  blamed : ∀ d ∈ c.diagnostics, ∀ p ∈ d.position?, allowed p

namespace Blames

variable {allowed allowed' : Nat × Nat → Prop}

theorem mono (h : c.Blames finish allowed) (himp : ∀ p, allowed p → allowed' p) :
    c.Blames finish allowed' :=
  { h with blamed := fun d hd p hp => himp p (h.blamed d hd p hp) }

theorem current_ahead (h : c.Blames finish allowed) :
    Precedes finish c.current.position c.ahead.position :=
  (List.pairwise_cons.mp h.coming).1 _ List.mem_cons_self

theorem advance (h : c.Blames finish allowed) : c.advance.Blames finish allowed := by
  obtain ⟨current, ahead, rest, endLine, endColumn, depth, diagnostics⟩ := c
  have hcoming := (List.pairwise_cons.mp h.coming).2
  cases rest with
  | nil =>
      -- Behind the last token the finishing one comes again.
      refine ⟨h.finish_eq, ?_, h.told, h.blamed⟩
      have hfinish : Precedes finish (endLine, endColumn) (endLine, endColumn) :=
        .inr ⟨h.finish_eq, h.finish_eq⟩
      have hahead : Precedes finish ahead.position (endLine, endColumn) :=
        (List.pairwise_cons.mp hcoming).1 _ List.mem_cons_self
      simp [positions, Cursor.advance, Token.position, Token.finish] at hahead ⊢
      exact ⟨hahead, hfinish⟩
  | cons t rest => exact ⟨h.finish_eq, hcoming, h.told, h.blamed⟩

theorem record (h : c.Blames finish allowed) {d : Diagnostic}
    (hlater : ∀ q ∈ d.position?, ∀ p, allowed p → Precedes finish p q) :
    (c.record d).Blames finish fun p => allowed p ∨ p ∈ d.position? := by
  refine ⟨h.finish_eq, h.coming, ?_, ?_⟩
  · refine List.pairwise_append.mpr ⟨h.told, List.pairwise_singleton _ _, ?_⟩
    intro e he d' hd' p hp q hq
    obtain rfl := List.mem_singleton.mp hd'
    exact hlater q hq p (h.blamed e he p hp)
  · intro e he p hp
    rcases List.mem_append.mp he with he | he
    · exact .inl (h.blamed e he p hp)
    · obtain rfl := List.mem_singleton.mp he
      exact .inr hp

end Blames

/-- No token behind the current one has been blamed. -/
def Spent (finish : Nat × Nat) (c : Cursor) : Prop :=
  c.Blames finish fun p => Precedes finish p c.current.position ∨ p = c.current.position

/-- Nor has the current one, before which `depth` braces were open. -/
structure Fresh (finish : Nat × Nat) (depth : Nat) (c : Cursor) : Prop where
  blames : c.Blames finish fun p => Precedes finish p c.current.position
  before : c.Before depth

/-- On the last token of an expression begun among `depth` open braces. -/
structure Resting (finish : Nat × Nat) (depth : Nat) (c : Cursor) : Prop where
  spent : c.Spent finish
  skipped : c.current.kind.isSkipped = true
  depth_eq : c.depth = depth

/-- The token ahead may have been blamed, and skipping will lead there. -/
structure Pending (finish : Nat × Nat) (depth : Nat) (c : Cursor) : Prop where
  blames : c.Blames finish fun p => Precedes finish p c.ahead.position ∨ p = c.ahead.position
  skipped : c.current.kind.isSkipped = true
  depth_le : depth ≤ c.depth

/-- Where a statement begun among `depth` open braces is refused. -/
def Refusing (finish : Nat × Nat) (depth : Nat) (c : Cursor) : Prop :=
  c.Spent finish ∨ c.Pending finish depth

def Told (finish : Nat × Nat) (c : Cursor) : Prop :=
  c.diagnostics.Pairwise (Diagnostic.InOrder finish)

theorem Fresh.spent (h : c.Fresh finish depth) : c.Spent finish :=
  h.blames.mono fun _ => .inl

theorem Spent.advance (h : c.Spent finish) : c.advance.Fresh finish c.depth := by
  refine ⟨(Blames.advance h).mono fun p hp => ?_, c.before_advance⟩
  rw [advance_current]
  rcases hp with hp | rfl
  · exact hp.trans h.current_ahead
  · exact h.current_ahead

theorem Resting.advance (h : c.Resting finish depth) : c.advance.Fresh finish depth := by
  obtain rfl := h.depth_eq
  exact h.spent.advance

theorem Fresh.resting (h : c.Fresh finish depth) (hplain : c.current.kind.isPlain = true) :
    c.Resting finish depth :=
  ⟨h.spent, Kind.isSkipped_of_isPlain hplain, by rw [h.before, depthAfter_isPlain hplain]⟩

/-- Moving on to a token of a plain kind. -/
theorem Resting.step {kind : Kind} (h : c.Resting finish depth) (hahead : c.ahead.kind = kind)
    (hplain : kind.isPlain = true) : c.advance.Resting finish depth :=
  h.advance.resting (by rw [advance_current, hahead, hplain])

theorem Fresh.opened (h : c.Fresh finish depth) (hkind : c.current.kind = .symbol .leftBrace) :
    c.Resting finish (depth + 1) :=
  ⟨h.spent, by rw [hkind]; rfl, h.before.depth_eq hkind⟩

theorem Fresh.closed (h : c.Fresh finish (depth + 1))
    (hkind : c.current.kind = .symbol .rightBrace) : c.Resting finish depth :=
  ⟨h.spent, by rw [hkind]; rfl, h.before.depth_eq hkind⟩

/-- The current token is blamed. -/
theorem Fresh.record (h : c.Fresh finish depth) {d : Diagnostic}
    (hd : ∀ q ∈ d.position?, q = c.current.position) : (c.record d).Spent finish := by
  refine (h.blames.record fun q hq p hp => ?_).mono fun p hp => hp.imp_right (hd p)
  rw [hd q hq]
  exact hp

/-- The token ahead is blamed. -/
theorem Resting.record (h : c.Resting finish inner) (hle : depth ≤ inner) (kind : Kind) :
    (c.record (.expected kind c.ahead)).Pending finish depth := by
  have hahead {p : Nat × Nat}
      (hp : Precedes finish p c.current.position ∨ p = c.current.position) :
      Precedes finish p c.ahead.position := by
    rcases hp with hp | rfl
    · exact hp.trans h.spent.current_ahead
    · exact h.spent.current_ahead
  refine ⟨?_, h.skipped, by rw [record_depth, h.depth_eq]; exact hle⟩
  refine (h.spent.record fun q hq p hp => ?_).mono fun p hp => ?_
  · obtain rfl := Option.some.inj hq
    exact hahead hp
  · exact hp.imp hahead fun hp => (Option.some.inj hp).symm

theorem Refusing.of_le (h : c.Refusing finish inner) (hle : depth ≤ inner) :
    c.Refusing finish depth :=
  h.imp_right fun h => { h with depth_le := Nat.le_trans hle h.depth_le }

theorem Pending.not_stops (h : c.Pending finish depth) : ¬ c.Stops depth := by
  have hkind := h.skipped
  have hopen := h.depth_le
  rintro (hfinish | hlow | ⟨hsemicolon, _⟩)
  · rw [hfinish] at hkind
    cases hkind
  · omega
  · rw [hsemicolon] at hkind
    cases hkind

theorem Spent.iterate (h : c.Spent finish) (n : Nat) : (Cursor.advance^[n] c).Spent finish := by
  induction n generalizing c with
  | zero => exact h
  | succ n ih => exact ih h.advance.spent

/-- Skipping the rest of a refused statement leads to the token blamed, or beyond it. -/
theorem Refusing.synchronize (h : c.Refusing finish depth) :
    (c.synchronize depth).Spent finish := by
  obtain ⟨n, _, heq, hstops, _⟩ := synchronize_stops depth c
  rw [heq]
  rcases h with hspent | hpending
  · exact hspent.iterate n
  · cases n with
    | zero => exact absurd hstops hpending.not_stops
    | succ n =>
        have hmoved : c.advance.Spent finish := by
          unfold Spent
          rw [advance_current]
          exact hpending.blames.advance
        exact hmoved.iterate n

end Cursor

/-- The outcome of a parser before whose first token `depth` braces were open. -/
def Parsed.Blaming {α : Type} (finish : Nat × Nat) (depth : Nat) (outcome : Parsed α) : Prop :=
  outcome.Meets (fun _ c => c.Resting finish depth) (Cursor.Refusing finish depth)
    (Cursor.Told finish)

/-- What a reading tells is wrong. -/
def Reading.diagnostics : Reading → List Diagnostic
  | .parsed _ diagnostics | .tooDeep diagnostics => diagnostics

namespace Parse

open Parsed

variable {α β : Type} {nested : Nested} {done : β → Cursor → Prop}

theorem blaming_bind {p : Parse α} {next : α → Parse β} (hle : depth ≤ inner)
    (hp : Blaming finish inner (p c))
    (hnext : ∀ a c', c'.Resting finish inner →
      (next a c').Meets done (Cursor.Refusing finish depth) (Cursor.Told finish)) :
    ((p >>= next) c).Meets done (Cursor.Refusing finish depth) (Cursor.Told finish) := by
  rw [bind_meets]
  exact Meets.mono hp hnext (fun _ h => h.of_le hle) fun _ h => h

theorem blaming_expect {kind : Kind} {next : Unit → Parse β} (hle : depth ≤ inner)
    (h : c.Resting finish inner)
    (hnext : c.ahead.kind = kind →
      (next () c.advance).Meets done (Cursor.Refusing finish depth) (Cursor.Told finish)) :
    ((expect kind >>= next) c).Meets done (Cursor.Refusing finish depth)
      (Cursor.Told finish) := by
  rw [bind_meets]
  exact expect_meets hnext fun _ => .inr (h.record hle kind)

/-- A statement is over on the semicolon behind it, or without one. -/
theorem blaming_skipIf {kind : Kind} {n : Node} (h : c.Spent finish) :
    ((do skipIf kind; return n : Parse Node) c).Meets (fun _ c' => c'.Spent finish)
      (Cursor.Refusing finish depth) (Cursor.Told finish) := by
  rw [bind_meets]
  exact skipIf_meets (fun _ => h.advance.spent) fun _ => h

theorem integerLiteral_blaming (h : c.Fresh finish depth) (hkind : c.current.kind = .number) :
    Blaming finish depth (integerLiteral c) := by
  have hrefused : (c.record (.badInteger c.current.value)).Refusing finish depth :=
    .inl (h.record fun q hq => by cases hq)
  rw [integerLiteral_run]
  split
  · split
    · exact h.resting (by rw [hkind]; rfl)
    · exact hrefused
  · exact hrefused

theorem identAhead_blaming (h : c.Resting finish depth) :
    Blaming finish depth (identAhead c) :=
  blaming_expect (Nat.le_refl _) h fun hahead => h.step hahead rfl

theorem moreParameters_blaming (fuel : Nat) (read : List Ident) (h : c.Resting finish depth) :
    Blaming finish depth (moreParameters fuel read c) := by
  induction fuel generalizing read c with
  | zero => exact h.spent.told
  | succ fuel ih =>
      simp only [moreParameters, aheadIs_bind, ite_run, advance_bind, pure_run,
        decide_eq_true_eq]
      split
      next hcomma =>
        exact blaming_bind (Nat.le_refl _) (identAhead_blaming (h.step hcomma rfl))
          fun name c' h' => ih _ h'
      next => exact h

theorem parameters_blaming (h : c.Resting finish depth) :
    Blaming finish depth (parameters c) := by
  simp only [parameters, aheadIs_bind, ite_run, advance_bind, pure_run,
    decide_eq_true_eq]
  split
  next hclose => exact h.step hclose rfl
  next =>
    apply blaming_bind (Nat.le_refl _) (identAhead_blaming h)
    intro first c₁ h₁
    simp only [cursor_bind]
    apply blaming_bind (Nat.le_refl _) (moreParameters_blaming _ _ h₁)
    intro names c₂ h₂
    exact blaming_expect (Nat.le_refl _) h₂ fun hclose => h₂.step hclose rfl

section Nested

variable (hnested : ∀ strength depth c, Cursor.Fresh finish depth c →
    Blaming finish depth (nested strength c))
include hnested

/-- Going on behind an expression that starts behind the current token. -/
theorem blaming_nested {next : Node → Parse β} (strength : Int) (hle : depth ≤ inner)
    (h : c.Resting finish inner)
    (hnext : ∀ a c', c'.Resting finish inner →
      (next a c').Meets done (Cursor.Refusing finish depth) (Cursor.Told finish)) :
    ((nested strength >>= next) c.advance).Meets done (Cursor.Refusing finish depth)
      (Cursor.Told finish) :=
  blaming_bind hle (hnested strength inner _ h.advance) hnext

theorem moreItems_blaming (fuel : Nat) (read : List Node) (h : c.Resting finish depth) :
    Blaming finish depth (moreItems nested fuel read c) := by
  induction fuel generalizing read c with
  | zero => exact h.spent.told
  | succ fuel ih =>
      simp only [moreItems, aheadIs_bind, ite_run, advance_bind, pure_run,
        decide_eq_true_eq]
      split
      next hcomma =>
        exact blaming_nested hnested _ (Nat.le_refl _) (h.step hcomma rfl)
          fun item c' h' => ih _ h'
      next => exact h

theorem expressionList_blaming {closing : Kind} (hclosing : closing.isPlain = true)
    (h : c.Resting finish depth) : Blaming finish depth (expressionList nested closing c) := by
  simp only [expressionList, aheadIs_bind, ite_run, advance_bind, pure_run,
    decide_eq_true_eq]
  split
  next hclose => exact h.step hclose hclosing
  next =>
    apply blaming_nested hnested _ (Nat.le_refl _) h
    intro first c₁ h₁
    simp only [cursor_bind]
    apply blaming_bind (Nat.le_refl _) (moreItems_blaming hnested _ _ h₁)
    intro items c₂ h₂
    exact blaming_expect (Nat.le_refl _) h₂ fun hclose => h₂.step hclose hclosing

theorem hashPairs_blaming (fuel : Nat) (read : List (Node × Node))
    (h : c.Resting finish depth) : Blaming finish depth (hashPairs nested fuel read c) := by
  induction fuel generalizing read c with
  | zero => exact h.spent.told
  | succ fuel ih =>
      simp only [hashPairs, advance_bind]
      apply blaming_nested hnested _ (Nat.le_refl _) h
      intro key c₁ h₁
      apply blaming_expect (Nat.le_refl _) h₁
      intro hcolon
      simp only [advance_bind]
      apply blaming_nested hnested _ (Nat.le_refl _) (h₁.step hcolon rfl)
      intro value c₂ h₂
      simp only [aheadIs_bind, ite_run, advance_bind, pure_run, decide_eq_true_eq]
      split
      next hcomma => exact ih _ (h₂.step hcomma rfl)
      next => exact h₂

theorem hashLiteral_blaming (h : c.Resting finish (depth + 1)) :
    Blaming finish depth (hashLiteral nested c) := by
  have hclosed {c' : Cursor} (h' : c'.Resting finish (depth + 1))
      (hclose : c'.ahead.kind = .symbol .rightBrace) : c'.advance.Resting finish depth :=
    h'.advance.closed (by rw [Cursor.advance_current, hclose])
  simp only [hashLiteral, current_bind, aheadIs_bind, ite_run, advance_bind, pure_run,
    cursor_bind, decide_eq_true_eq]
  split
  next hclose => exact hclosed h hclose
  next =>
    apply blaming_bind (Nat.le_succ _) (hashPairs_blaming hnested _ _ h)
    intro pairs c₁ h₁
    exact blaming_expect (Nat.le_succ _) h₁ (hclosed h₁)

/-- The outcome of a statement. When it is done, the semicolon behind it is the current
token, or its own last one. -/
theorem statement_blaming (h : c.Fresh finish depth) :
    (statement nested c).Meets (fun _ c' => c'.Spent finish) (Cursor.Refusing finish depth)
      (Cursor.Told finish) := by
  rw [statement_run]
  split
  next hkind =>
    have hword : c.Resting finish depth := h.resting (by rw [hkind]; rfl)
    simp only [bindingStatement, current_bind]
    apply blaming_bind (Nat.le_refl _) (identAhead_blaming hword)
    intro name c₁ h₁
    apply blaming_expect (Nat.le_refl _) h₁
    intro hassign
    simp only [advance_bind]
    exact blaming_nested hnested _ (Nat.le_refl _) (h₁.step hassign rfl)
      fun value c₂ h₂ => blaming_skipIf h₂.spent
  next hkind =>
    have hword : c.Resting finish depth := h.resting (by rw [hkind]; rfl)
    simp only [returnStatement, current_bind, cursor_bind, ite_run, advance_bind]
    split
    next => exact blaming_skipIf h.spent
    next =>
      exact blaming_nested hnested _ (Nat.le_refl _) hword
        fun value c₁ h₁ => blaming_skipIf h₁.spent
  next =>
    simp only [expressionStatement, current_bind]
    exact blaming_bind (Nat.le_refl _) (hnested _ _ _ h)
      fun value c₁ h₁ => blaming_skipIf h₁.spent

/-- Recovered from or not, a statement ends no earlier than at the last token blamed. -/
theorem recovering_blaming (hle : depth ≤ inner) (h : c.Fresh finish inner) :
    (recovering depth (statement nested) c).Meets (fun _ c' => c'.Spent finish)
      (fun _ => False) (Cursor.Told finish) := by
  have hstatement := statement_blaming hnested h
  unfold recovering
  revert hstatement
  cases statement nested c with
  | done n after =>
      intro hdone
      simp only
      split
      · exact hdone
      · exact hdone
  | refused after =>
      intro hrefused
      exact (Cursor.Refusing.of_le hrefused hle).synchronize
  | tooDeep after => exact fun htold => htold

/-- The statements of a block go on behind a token, or are over on it. -/
theorem blockStatements_blaming (fuel : Nat) (read : List Node)
    (h : (∃ inner, depth ≤ inner ∧ c.Fresh finish inner) ∨ c.Spent finish ∧ c.depth < depth) :
    (blockStatements nested depth fuel read c).Meets (fun _ c' => c'.Spent finish)
      (fun c' => c'.Spent finish) (Cursor.Told finish) := by
  have hspent (c : Cursor)
      (h : (∃ inner, depth ≤ inner ∧ c.Fresh finish inner) ∨
        c.Spent finish ∧ c.depth < depth) : c.Spent finish := by
    rcases h with ⟨_, _, hfresh⟩ | ⟨hspent, _⟩
    · exact hfresh.spent
    · exact hspent
  induction fuel generalizing read c with
  | zero => exact (hspent c h).told
  | succ fuel ih =>
      simp only [blockStatements, cursor_bind, ite_run, pure_run, refuse_bind]
      split
      next => exact hspent c h
      next hopen =>
        obtain ⟨inner, hle, hfresh⟩ : ∃ inner, depth ≤ inner ∧ c.Fresh finish inner :=
          h.resolve_right fun hover => hopen hover.2
        split
        -- The end may be missed again: it precedes itself.
        next => exact hfresh.record fun q hq => (Option.some.inj hq).symm
        next =>
          rw [bind_meets]
          refine (recovering_blaming hnested hle hfresh).mono (fun found c₁ h₁ => ?_)
            (fun _ h => h.elim) fun _ h => h
          simp only [cursor_bind, ite_run, advance_bind]
          split
          next hstill => exact ih _ (.inl ⟨c₁.depth, hstill, h₁.advance⟩)
          next hover => exact ih _ (.inr ⟨h₁, Nat.lt_of_not_le hover⟩)

section Braced

variable (hbraced : ∀ strength depth c, Cursor.Before depth c →
    Braced depth (nested strength c))
include hbraced

theorem blockAhead_blaming (h : c.Resting finish depth) :
    Blaming finish depth (blockAhead nested c) := by
  apply blaming_expect (Nat.le_refl _) h
  intro hopen
  have hopened : c.advance.Resting finish (depth + 1) :=
    h.advance.opened (by rw [Cursor.advance_current, hopen])
  have hblock : (block nested c.advance).Meets (fun _ c' => c'.Spent finish)
      (fun c' => c'.Spent finish) (Cursor.Told finish) := by
    simp only [block, cursor_bind, advance_bind, bind_meets]
    exact blockStatements_blaming hnested _ _
      (.inl ⟨_, Nat.le_refl _, hopened.spent.advance⟩)
  apply (hblock.and (block_closed hbraced hopened.depth_eq)).mono
  · rintro _ c' ⟨hspent, hdepth, hkind⟩
    exact ⟨hspent, by rw [hkind]; rfl, hdepth⟩
  · exact fun c' hrefused => .inl hrefused.1
  · exact fun c' htold => htold.1

theorem conditional_blaming (h : c.Resting finish depth) :
    Blaming finish depth (conditional nested c) := by
  simp only [conditional, current_bind]
  apply blaming_expect (Nat.le_refl _) h
  intro hopen
  simp only [advance_bind]
  apply blaming_nested hnested _ (Nat.le_refl _) (h.step hopen rfl)
  intro condition c₁ h₁
  apply blaming_expect (Nat.le_refl _) h₁
  intro hclose
  apply blaming_bind (Nat.le_refl _) (blockAhead_blaming hnested hbraced (h₁.step hclose rfl))
  intro consequence c₂ h₂
  simp only [aheadIs_bind, ite_run, advance_bind, pure_run, decide_eq_true_eq]
  split
  next helse =>
    exact blaming_bind (Nat.le_refl _)
      (blockAhead_blaming hnested hbraced (h₂.step helse rfl)) fun alternative c₃ h₃ => h₃
  next => exact h₂

theorem functionLiteral_blaming (h : c.Resting finish depth) :
    Blaming finish depth (functionLiteral nested c) := by
  simp only [functionLiteral, current_bind]
  apply blaming_expect (Nat.le_refl _) h
  intro hopen
  apply blaming_bind (Nat.le_refl _) (parameters_blaming (h.step hopen rfl))
  intro names c₁ h₁
  exact blaming_bind (Nat.le_refl _) (blockAhead_blaming hnested hbraced h₁)
    fun body c₂ h₂ => h₂

theorem operand_blaming (h : c.Fresh finish depth) :
    Blaming finish depth (operand nested c) := by
  have hplain {kind : Kind} (hkind : c.current.kind = kind) (hplain : kind.isPlain = true) :
      c.Resting finish depth := h.resting (hkind ▸ hplain)
  rw [operand_run]
  split
  next hkind => exact hplain hkind rfl
  next hkind => exact integerLiteral_blaming h hkind
  next hkind => exact hplain hkind rfl
  next hkind => exact hplain hkind rfl
  next hkind => exact hplain hkind rfl
  case h_6 hkind | h_7 hkind | h_8 hkind =>
    simp only [unary, current_bind, advance_bind]
    exact blaming_nested hnested _ (Nat.le_refl _) (hplain hkind rfl)
      fun operand c₁ h₁ => h₁
  next hkind =>
    simp only [grouped, advance_bind]
    apply blaming_nested hnested _ (Nat.le_refl _) (hplain hkind rfl)
    intro inner c₁ h₁
    exact blaming_expect (Nat.le_refl _) h₁ fun hclose => h₁.step hclose rfl
  next hkind => exact conditional_blaming hnested hbraced (hplain hkind rfl)
  next hkind => exact functionLiteral_blaming hnested hbraced (hplain hkind rfl)
  next hkind =>
    simp only [arrayLiteral, current_bind]
    exact blaming_bind (Nat.le_refl _) (expressionList_blaming hnested rfl (hplain hkind rfl))
      fun elements c₁ h₁ => h₁
  next hkind => exact hashLiteral_blaming hnested (h.opened hkind)
  next => exact .inl (h.record fun q hq => (Option.some.inj hq).symm)

end Braced

theorem continuation_blaming (left : Node) (h : c.Resting finish depth) :
    Blaming finish depth (continuation nested left c) := by
  rw [continuation_run]
  split
  next =>
    simp only [callRest, current_bind]
    exact blaming_bind (Nat.le_refl _) (expressionList_blaming hnested rfl h)
      fun arguments c₁ h₁ => h₁
  next =>
    simp only [indexRest, current_bind, advance_bind]
    apply blaming_nested hnested _ (Nat.le_refl _) h
    intro place c₁ h₁
    exact blaming_expect (Nat.le_refl _) h₁ fun hclose => h₁.step hclose rfl
  next =>
    simp only [infixRest, current_bind, advance_bind]
    exact blaming_nested hnested _ (Nat.le_refl _) h fun right c₁ h₁ => h₁

theorem climb_blaming (strength : Int) (fuel : Nat) (left : Node)
    (h : c.Resting finish depth) : Blaming finish depth (climb nested strength fuel left c) := by
  induction fuel generalizing left c with
  | zero => exact h.spent.told
  | succ fuel ih =>
      simp only [climb, cursor_bind, ite_run, pure_run, advance_bind]
      split
      next => exact h
      next hgo =>
        simp only [Bool.or_eq_true, Bool.not_eq_true', not_or, Bool.not_eq_false] at hgo
        have hmoved : c.advance.Resting finish depth :=
          h.step rfl (Kind.isPlain_of_continues hgo.2)
        exact blaming_bind (Nat.le_refl _) (continuation_blaming hnested left hmoved)
          fun longer c₁ h₁ => ih longer h₁

/-- Behind each statement of a program the parser moves on. -/
theorem programStatements_told (fuel : Nat) (read : List Node) (h : c.Fresh finish depth) :
    (programStatements nested fuel read c).Meets (fun _ c' => c'.Told finish)
      (Cursor.Told finish) (Cursor.Told finish) := by
  induction fuel generalizing read c depth with
  | zero => exact h.blames.told
  | succ fuel ih =>
      simp only [programStatements, current_bind, ite_run, pure_run]
      split
      next => exact h.blames.told
      next =>
        rw [bind_meets]
        refine (recovering_blaming hnested (Nat.zero_le _) h).mono (fun found c₁ h₁ => ?_)
          (fun _ h => h.elim) fun _ h => h
        simp only [advance_bind]
        exact ih _ h₁.advance

end Nested

/-- An expression of any depth of nesting. -/
theorem expression_blaming (levels : Nat) (strength : Int) (depth : Nat) (c : Cursor)
    (h : c.Fresh finish depth) : Blaming finish depth (expression levels strength c) := by
  induction levels generalizing strength depth c with
  | zero => exact h.blames.told
  | succ levels ih =>
      simp only [expression]
      apply blaming_bind (Nat.le_refl _) (operand_blaming ih (expression_braced levels) h)
      intro first c₁ h₁
      simp only [cursor_bind]
      exact climb_blaming ih strength _ first h₁

end Parse

namespace Reading

/-- Before anything is read, nothing has been blamed. -/
theorem fresh_start {tokens : List Token} {last : Token}
    (h : (tokens ++ [last]).Pairwise fun t u => t.position.lexLt u.position) :
    (Cursor.start tokens last.line last.column).Fresh last.position 0 := by
  have hcoming : (tokens.map Token.position ++ [last.position]).Pairwise
      (Precedes last.position) := by
    have hmap : tokens.map Token.position ++ [last.position] =
        (tokens ++ [last]).map Token.position := by simp
    rw [hmap, List.pairwise_map]
    exact h.imp fun hlt => .inl hlt
  have hfinish : Precedes last.position last.position last.position := .inr ⟨rfl, rfl⟩
  rw [Cursor.start_eq_onto]
  refine ⟨⟨rfl, ?_, .nil, fun d hd => absurd hd List.not_mem_nil⟩, rfl⟩
  rcases tokens with _ | ⟨t, _ | ⟨u, rest⟩⟩
  · show [last.position, last.position, last.position].Pairwise _
    simp [hfinish]
  · have hlast : Precedes last.position t.position last.position := by simpa using hcoming
    show [t.position, last.position, last.position].Pairwise _
    simp [hlast, hfinish]
  · exact hcoming

theorem told_ofStatements {outcome : Parsed (List Node)}
    (h : outcome.Meets (fun _ c => c.Told finish) (Cursor.Told finish) (Cursor.Told finish)) :
    (ofStatements outcome).diagnostics.Pairwise (Diagnostic.InOrder finish) := by
  cases outcome with
  | done statements after => exact h
  | refused after => exact h
  | tooDeep after => exact h

/-- The diagnostics of a text come in the order of its tokens, and none but the finishing
token is blamed twice: of two positions that end messages, the earlier message has the
earlier one, unless both are the end of the text. -/
theorem diagnostics_in_order (levels : Nat) (aliases : AliasTable) (text : String) :
    (ofText levels aliases text).diagnostics.Pairwise fun d e =>
      ∀ p q, d.Names p → e.Names q →
        p.lexLt q ∨ p = q ∧ p = (Lexer.ofString aliases text).2.position := by
  have hfresh : (Cursor.ofText aliases text).Fresh (Lexer.ofString aliases text).2.position 0 :=
    fresh_start (Lexer.tokenize_ordered aliases text)
  have htold := told_ofStatements
    (Parse.programStatements_told (Parse.expression_blaming levels)
      (Cursor.ofText aliases text).turns [] hfresh)
  unfold ofText
  rw [ofCursor_eq]
  refine htold.imp fun horder p q hp hq => ?_
  have hprecedes := horder p (Diagnostic.names_iff.mp hp) q (Diagnostic.names_iff.mp hq)
  rcases hprecedes with hlt | ⟨rfl, rfl⟩
  · exact .inl hlt
  · exact .inr ⟨rfl, rfl⟩

/-- A block that ends on the brace just blamed, and two that are never closed. -/
def unclosedBlocks : String :=
  "fn() \x7b let \x7d\nfn() \x7b fn() \x7b )"

theorem unclosedBlocks_in_order :
    (ofText 9 .empty unclosedBlocks).diagnostics.map Diagnostic.message =
      ["expected next token type \"IDENT\", actual \"RBRACE\" (line 1, col 12)",
        "no prefix parse function for \"RPAREN\" found (line 2, col 15)",
        "expected next token type \"RBRACE\", actual \"EOF\" (line 2, col 16)",
        "expected next token type \"RBRACE\", actual \"EOF\" (line 2, col 16)"] ∧
    (ofText 9 .empty unclosedBlocks).diagnostics.Pairwise fun d e =>
      ∀ p q, d.Names p → e.Names q → p.lexLt q ∨ p = q ∧ p = (2, 16) := by
  have hfinish : (Lexer.ofString .empty unclosedBlocks).2.position = (2, 16) := by
    decide +kernel
  have horder := diagnostics_in_order 9 .empty unclosedBlocks
  rw [hfinish] at horder
  exact ⟨by decide +kernel, horder⟩

end Reading

end Scriptlet
