import Scriptlet.Proofs.Parse.Outcome

/-!
The number of levels only decides whether a parser gives up. A parser that may
nest more deeply does the same as one that may nest less, as long as the latter
comes to an end; every rule passes this on from the expressions inside it, so it
holds of all expressions by induction on the levels.
-/

namespace Scriptlet

namespace Parse

variable {α β : Type} {nested nested' : Nested}

/-- The second parser does what the first does, unless the first gives up. -/
def Follows (p q : Parse α) : Prop :=
  ∀ c, p c = q c ∨ ∃ c', p c = .tooDeep c'

namespace Follows

theorem refl (p : Parse α) : Follows p p := by
  intro c
  exact .inl rfl

/-- What has given up is followed by anything. -/
theorem tooDeep (q : Parse α) : Follows Parse.tooDeep q := by
  intro c
  exact .inr ⟨c, rfl⟩

/-- If the first part gives up so does the whole, and if it does not both go on from the
same end. -/
theorem bind {p q : Parse α} {next next' : α → Parse β} (hp : Follows p q)
    (hnext : ∀ a, Follows (next a) (next' a)) : Follows (p >>= next) (q >>= next') := by
  intro c
  rcases hp c with heq | ⟨c', hdeep⟩
  · simp only [bind_run, ← heq]
    cases p c with
    | done a c₁ => exact hnext a c₁
    | refused c₁ => exact .inl rfl
    | tooDeep c₁ => exact .inl rfl
  · right
    exact ⟨c', by simp only [bind_run, hdeep]⟩

/-- Parsers that begin alike. -/
theorem step (p : Parse α) {next next' : α → Parse β}
    (hnext : ∀ a, Follows (next a) (next' a)) : Follows (p >>= next) (p >>= next') :=
  (refl p).bind hnext

theorem ite {b : Prop} [Decidable b] {p p' q q' : Parse α} (hp : Follows p q)
    (hp' : Follows p' q') : Follows (if b then p else p') (if b then q else q') := by
  split
  · exact hp
  · exact hp'

/-- Recovery does not touch a parser that has given up. -/
theorem recovering {p q : Parse Node} (h : Follows p q) (depth : Int) :
    Follows (recovering depth p) (recovering depth q) := by
  intro c
  unfold Parse.recovering
  rcases h c with heq | ⟨c', hdeep⟩
  · rw [heq]
    exact .inl rfl
  · rw [hdeep]
    exact .inr ⟨c', rfl⟩

end Follows

section Rules

variable (hnested : ∀ strength, Follows (nested strength) (nested' strength))
include hnested

theorem moreItems_follows (fuel : Nat) (read : List Node) :
    Follows (moreItems nested fuel read) (moreItems nested' fuel read) := by
  induction fuel generalizing read with
  | zero => exact .refl _
  | succ fuel ih =>
      apply Follows.step
      intro comma
      apply Follows.ite
      · apply Follows.step
        intro _
        apply Follows.step
        intro _
        apply (hnested lowest).bind
        intro item
        exact ih (item :: read)
      · exact .refl _

theorem expressionList_follows (closing : Kind) :
    Follows (expressionList nested closing) (expressionList nested' closing) := by
  apply Follows.step
  intro closed
  apply Follows.ite
  · exact .refl _
  · apply Follows.step
    intro _
    apply (hnested lowest).bind
    intro first
    apply Follows.step
    intro c
    apply (moreItems_follows hnested c.turns [first]).bind
    intro items
    exact .refl _

theorem hashPairs_follows (fuel : Nat) (read : List (Node × Node)) :
    Follows (hashPairs nested fuel read) (hashPairs nested' fuel read) := by
  induction fuel generalizing read with
  | zero => exact .refl _
  | succ fuel ih =>
      apply Follows.step
      intro _
      apply (hnested lowest).bind
      intro key
      apply Follows.step
      intro _
      apply Follows.step
      intro _
      apply (hnested lowest).bind
      intro value
      apply Follows.step
      intro comma
      apply Follows.ite
      · apply Follows.step
        intro _
        exact ih _
      · exact .refl _

theorem hashLiteral_follows : Follows (hashLiteral nested) (hashLiteral nested') := by
  apply Follows.step
  intro t
  apply Follows.step
  intro closed
  apply Follows.ite
  · exact .refl _
  · apply Follows.step
    intro c
    apply (hashPairs_follows hnested c.turns []).bind
    intro pairs
    exact .refl _

/-- What is done with an expression behind other tokens. -/
theorem value_follows (strength : Int) (make : Node → Parse α) :
    Follows (nested strength >>= make) (nested' strength >>= make) := by
  apply (hnested strength).bind
  intro value
  exact .refl _

/-- Every rule follows itself with expressions parsed more deeply; the rules differ in
nothing else. -/
theorem statement_follows : Follows (statement nested) (statement nested') := by
  apply Follows.step
  intro t
  split
  · apply Follows.step
    intro t
    apply Follows.step
    intro name
    apply Follows.step
    intro _
    apply Follows.step
    intro _
    exact value_follows hnested lowest _
  · apply Follows.step
    intro t
    apply Follows.step
    intro c
    apply Follows.ite
    · exact .refl _
    · apply Follows.step
      intro _
      exact value_follows hnested lowest _
  · apply Follows.step
    intro t
    exact value_follows hnested lowest _

theorem blockStatements_follows (depth fuel : Nat) (read : List Node) :
    Follows (blockStatements nested depth fuel read)
      (blockStatements nested' depth fuel read) := by
  induction fuel generalizing read with
  | zero => exact .refl _
  | succ fuel ih =>
      apply Follows.step
      intro c
      apply Follows.ite
      · exact .refl _
      · apply Follows.ite
        · intro c
          exact .inl rfl
        · apply ((statement_follows hnested).recovering depth).bind
          intro found
          apply Follows.step
          intro after
          apply Follows.ite
          · apply Follows.step
            intro _
            exact ih _
          · exact ih _

theorem blockAhead_follows : Follows (blockAhead nested) (blockAhead nested') := by
  apply Follows.step
  intro _
  apply Follows.step
  intro opening
  apply Follows.step
  intro _
  apply Follows.step
  intro c
  apply (blockStatements_follows hnested opening.depth c.turns []).bind
  intro statements
  exact .refl _

theorem conditional_follows : Follows (conditional nested) (conditional nested') := by
  apply Follows.step
  intro t
  apply Follows.step
  intro _
  apply Follows.step
  intro _
  apply (hnested lowest).bind
  intro condition
  apply Follows.step
  intro _
  apply (blockAhead_follows hnested).bind
  intro consequence
  apply Follows.step
  intro other
  apply Follows.ite
  · apply Follows.step
    intro _
    apply (blockAhead_follows hnested).bind
    intro alternative
    exact .refl _
  · exact .refl _

theorem functionLiteral_follows :
    Follows (functionLiteral nested) (functionLiteral nested') := by
  apply Follows.step
  intro t
  apply Follows.step
  intro _
  apply Follows.step
  intro names
  apply (blockAhead_follows hnested).bind
  intro body
  exact .refl _

theorem operand_follows : Follows (operand nested) (operand nested') := by
  apply Follows.step
  intro t
  split
  case h_6 | h_7 | h_8 =>
      apply Follows.step
      intro t
      apply Follows.step
      intro _
      exact value_follows hnested unaryStrength _
  case h_9 =>
      apply Follows.step
      intro _
      exact value_follows hnested lowest _
  case h_10 => exact conditional_follows hnested
  case h_11 => exact functionLiteral_follows hnested
  case h_12 =>
      apply Follows.step
      intro t
      apply (expressionList_follows hnested _).bind
      intro elements
      exact .refl _
  case h_13 => exact hashLiteral_follows hnested
  all_goals exact .refl _

theorem continuation_follows (left : Node) :
    Follows (continuation nested left) (continuation nested' left) := by
  apply Follows.step
  intro t
  split
  · apply (expressionList_follows hnested _).bind
    intro arguments
    exact .refl _
  · apply Follows.step
    intro _
    exact value_follows hnested lowest _
  · apply Follows.step
    intro _
    exact value_follows hnested _ _

theorem climb_follows (strength : Int) (fuel : Nat) (left : Node) :
    Follows (climb nested strength fuel left) (climb nested' strength fuel left) := by
  induction fuel generalizing left with
  | zero => exact .refl _
  | succ fuel ih =>
      apply Follows.step
      intro c
      apply Follows.ite
      · exact .refl _
      · apply Follows.step
        intro _
        apply (continuation_follows hnested left).bind
        intro longer
        exact ih longer

theorem programStatements_follows (fuel : Nat) (read : List Node) :
    Follows (programStatements nested fuel read) (programStatements nested' fuel read) := by
  induction fuel generalizing read with
  | zero => exact .refl _
  | succ fuel ih =>
      apply Follows.step
      intro t
      apply Follows.ite
      · exact .refl _
      · apply ((statement_follows hnested).recovering 0).bind
        intro found
        apply Follows.step
        intro _
        exact ih _

end Rules

/-- More levels change nothing unless there were too few. -/
theorem expression_follows {levels more : Nat} (h : levels ≤ more) (strength : Int) :
    Follows (expression levels strength) (expression more strength) := by
  induction levels generalizing more strength with
  | zero => exact .tooDeep _
  | succ levels ih =>
      obtain ⟨more, rfl⟩ : ∃ n, more = n + 1 := ⟨more - 1, by omega⟩
      have hnested (strength : Int) :
          Follows (expression levels strength) (expression more strength) :=
        ih (by omega) strength
      apply (operand_follows hnested).bind
      intro first
      apply Follows.step
      intro c
      exact climb_follows hnested strength c.turns first

end Parse

/-- A program that is parsed at all is parsed the same with more levels. -/
theorem Reading.ofCursor_more {levels more : Nat} {c : Cursor} {program : Node}
    {diagnostics : List Diagnostic} (hmore : levels ≤ more)
    (h : ofCursor levels c = .parsed program diagnostics) :
    ofCursor more c = .parsed program diagnostics := by
  have hfollows : Parse.Follows (Parse.program levels) (Parse.program more) := by
    apply Parse.Follows.step
    intro start
    apply (Parse.programStatements_follows (Parse.expression_follows hmore) _ []).bind
    intro statements
    exact .refl _
  rw [← h]
  unfold ofCursor at *
  rcases hfollows c with heq | ⟨c', hdeep⟩
  · rw [heq]
  · rw [hdeep] at h
    cases h

end Scriptlet
