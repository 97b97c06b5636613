import Mathlib.Logic.Function.Iterate
import Scriptlet.Proofs.Parse.Closing
import Scriptlet.Proofs.Parse.Depth

/-!
Parsing comes to an end. The bounds that parsers are given, on the turns of a loop and on
how deeply expressions are nested, are there for form only. In each turn of a loop a token
is taken, or the turn is the last one, and an expression asks for expressions inside it
only where fewer tokens are left. So from any place in any tokens, with as many levels as
there are tokens left, no parser gives up, and with more of them it does the same.
-/

namespace Scriptlet

namespace Cursor

/-- Where skipping the rest of a statement stops. -/
def Stops (depth : Int) (c : Cursor) : Prop :=
  c.current.kind = .finish ∨ (c.depth : Int) < depth ∨
    c.current.kind = .symbol .semicolon ∧ (c.depth : Int) = depth

/-- One turn of skipping. -/
theorem synchronize_go_succ (depth : Int) (fuel : Nat) (c : Cursor) :
    (c.Stops depth ∧ synchronize.go depth (fuel + 1) c = c) ∨
      ¬ c.Stops depth ∧ c.current.kind ≠ .finish ∧
        synchronize.go depth (fuel + 1) c = synchronize.go depth fuel c.advance := by
  simp only [synchronize.go, Stops]
  split
  next hend =>
    simp only [Bool.or_eq_true, decide_eq_true_eq] at hend
    exact .inl ⟨hend.imp_right .inl, rfl⟩
  next hopen =>
    simp only [Bool.or_eq_true, decide_eq_true_eq, not_or] at hopen
    split
    next hsemicolon =>
      simp only [Bool.and_eq_true, decide_eq_true_eq] at hsemicolon
      exact .inl ⟨.inr (.inr hsemicolon), rfl⟩
    next hother =>
      simp only [Bool.and_eq_true, decide_eq_true_eq] at hother
      refine .inr ⟨?_, hopen.1, rfl⟩
      rintro (hfinish | hbelow | hsemicolon)
      · exact hopen.1 hfinish
      · exact hopen.2 hbelow
      · exact hother hsemicolon

/-- Skipping takes a token in each turn and stops at the first place where it may, which
there is before the tokens are used up. -/
theorem synchronize_stops (depth : Int) (c : Cursor) :
    ∃ n ≤ c.left, c.synchronize depth = advance^[n] c ∧ (advance^[n] c).Stops depth ∧
      ∀ k < n, ¬ (advance^[k] c).Stops depth := by
  have hgo (fuel : Nat) (c : Cursor) (hfuel : c.left < fuel) :
      ∃ n ≤ c.left, synchronize.go depth fuel c = advance^[n] c ∧
        (advance^[n] c).Stops depth ∧ ∀ k < n, ¬ (advance^[k] c).Stops depth := by
    induction fuel generalizing c with
    | zero => omega
    | succ fuel ih =>
        rcases synchronize_go_succ depth fuel c with ⟨hstops, heq⟩ | ⟨hgoes, hkind, heq⟩
        · exact ⟨0, Nat.zero_le _, heq, hstops, by omega⟩
        · have hlt := left_advance_lt (left_pos_of_current hkind)
          obtain ⟨n, hn, hrun, hstops, hbefore⟩ := ih c.advance (by omega)
          refine ⟨n + 1, by omega, heq.trans hrun, hstops, ?_⟩
          intro k hk
          cases k with
          | zero => exact hgoes
          | succ k => exact hbefore k (by omega)
  exact hgo c.turns c (left_le_turns c)

/-- A cursor among another number of braces has moved on. -/
theorem Reach.left_lt_of_depth {c c' : Cursor} (h : c.Reach c') (hpos : 0 < c.left)
    (hdepth : c'.depth ≠ c.depth) : c'.left < c.left := by
  induction h with
  | refl => exact absurd rfl hdepth
  | advance hreach _ => exact hreach.left_advance_lt hpos
  | record _ d ih => exact ih hdepth

end Cursor

/-- The parser did not give up. -/
def Parsed.Ends {α : Type} (outcome : Parsed α) : Prop :=
  outcome.Meets (fun _ _ => True) (fun _ => True) fun _ => False

/-- With more levels than tokens the parser cannot have given up. -/
theorem Parsed.Orderly.ends {α : Type} {limit : Nat} {c : Cursor} {outcome : Parsed α}
    (h : outcome.Orderly limit c) (hlimit : c.left < limit) : outcome.Ends := by
  apply Meets.mono h
  · exact fun _ _ _ => trivial
  · exact fun _ _ => trivial
  · rintro _ ⟨_, hle⟩
    omega

namespace Parse

open Parsed

variable {α β γ σ : Type} {limit : Nat} {c : Cursor} {nested : Nested}

/-- A parser that follows one that does not give up does the same. -/
theorem Follows.eq_of_ends {p q : Parse α} (h : Follows p q) (hends : (p c).Ends) :
    q c = p c := by
  rcases h c with heq | ⟨c', hdeep⟩
  · exact heq.symm
  · rw [hdeep] at hends
    exact hends.elim

/-- A loop, given what one turn does: it goes on from another state, or ends. -/
def loop (turn : σ → Parse (σ ⊕ α)) : Nat → σ → Parse α
  | 0, _ => tooDeep
  | fuel + 1, s => do
    match ← turn s with
    | .inl next => loop turn fuel next
    | .inr result => return result

theorem loop_succ (turn : σ → Parse (σ ⊕ α)) (fuel : Nat) (s : σ) :
    loop turn (fuel + 1) s = (do
      match ← turn s with
      | .inl next => loop turn fuel next
      | .inr result => return result) := rfl

/-- A turn that is not the last takes a token at least. -/
def TakesToken (turn : σ → Parse (σ ⊕ α)) : Prop :=
  ∀ s c next c', turn s c = .done (.inl next) c' → c'.left < c.left

/-- A loop that takes a token in every turn but the last. -/
def Consuming (run : Nat → σ → Parse α) : Prop :=
  ∃ turn, run = loop turn ∧ TakesToken turn

theorem bind_assoc (p : Parse α) (f : α → Parse β) (g : β → Parse γ) :
    p >>= f >>= g = p >>= fun a => f a >>= g := by
  funext c
  simp only [bind_run]
  cases p c <;> rfl

theorem pure_bind (a : α) (f : α → Parse β) : (Pure.pure a >>= f) = f a := rfl

theorem ite_bind (b : Prop) [Decidable b] (p q : Parse α) (f : α → Parse β) :
    (if b then p else q) >>= f = if b then p >>= f else q >>= f := by
  split <;> rfl

theorem refuse_then (reason : Diagnostic) (f : α → Parse β) :
    (refuse reason : Parse α) >>= f = refuse reason := rfl

/-- What is asked of a turn, in the form in which rules are taken apart. -/
def Taking (c : Cursor) (outcome : Parsed (σ ⊕ α)) : Prop :=
  outcome.Meets (fun next c' => next.isLeft = true → c'.left < c.left) (fun _ => True)
    fun _ => True

/-- Taken from any state, a turn that goes on has fewer tokens left. -/
theorem TakesToken.of_taking {turn : σ → Parse (σ ⊕ α)}
    (h : ∀ s c, Taking c (turn s c)) : TakesToken turn := by
  intro s c next c' hrun
  have hturn := h s c
  rw [hrun] at hturn
  exact hturn rfl

theorem taking_bind {p : Parse β} {next : β → Parse (σ ⊕ α)} {base : Cursor}
    (hp : Orderly limit c (p c)) (hnext : ∀ b c', c.Reach c' → Taking base (next b c')) :
    Taking base ((p >>= next) c) := by
  unfold Taking
  rw [bind_meets]
  exact Meets.mono hp (fun b c' h => hnext b c' h) (fun _ _ => trivial) fun _ _ => trivial

theorem taking_expect {kind : Kind} {next : Unit → Parse (σ ⊕ α)} {base : Cursor}
    (hnext : Taking base (next () c.advance)) :
    Taking base ((expect kind >>= next) c) := by
  unfold Taking
  rw [bind_meets]
  exact expect_meets (fun _ => hnext) fun _ => trivial

theorem taking_last {base : Cursor} (result : α) :
    Taking base (.done (.inr result) c : Parsed (σ ⊕ α)) := by
  intro h
  cases h

def itemTurn (nested : Nested) (read : List Node) : Parse (List Node ⊕ List Node) := do
  if ← aheadIs (.symbol .comma) then
    advance
    advance
    let item ← nested lowest
    return .inl (item :: read)
  else
    return .inr read.reverse

theorem moreItems_eq_loop (nested : Nested) : moreItems nested = loop (itemTurn nested) := by
  funext fuel
  induction fuel with
  | zero => rfl
  | succ fuel ih =>
      funext read
      simp only [moreItems, loop_succ, itemTurn, bind_assoc, pure_bind, ite_bind, ih]

def pairTurn (nested : Nested) (read : List (Node × Node)) :
    Parse (List (Node × Node) ⊕ List (Node × Node)) := do
  advance
  let key ← nested lowest
  expect (.symbol .colon)
  advance
  let value ← nested lowest
  if ← aheadIs (.symbol .comma) then
    advance
    return .inl ((key, value) :: read)
  else
    return .inr ((key, value) :: read).reverse

theorem hashPairs_eq_loop (nested : Nested) : hashPairs nested = loop (pairTurn nested) := by
  funext fuel
  induction fuel with
  | zero => rfl
  | succ fuel ih =>
      funext read
      simp only [hashPairs, loop_succ, pairTurn, bind_assoc, pure_bind, ite_bind, ih]

def parameterTurn (read : List Ident) : Parse (List Ident ⊕ List Ident) := do
  if ← aheadIs (.symbol .comma) then
    advance
    let parameter ← identAhead
    return .inl (parameter :: read)
  else
    return .inr read.reverse

theorem moreParameters_eq_loop : moreParameters = loop parameterTurn := by
  funext fuel
  induction fuel with
  | zero => rfl
  | succ fuel ih =>
      funext read
      simp only [moreParameters, loop_succ, parameterTurn, bind_assoc, pure_bind, ite_bind, ih]

def blockTurn (nested : Nested) (depth : Nat) (read : List Node) :
    Parse (List Node ⊕ List Node) := do
  let c ← cursor
  if c.depth < depth then
    return .inr read.reverse
  if c.current.kind = .finish then
    refuse (.expected (.symbol .rightBrace) c.current)
  let found ← recovering depth (statement nested)
  if depth ≤ (← cursor).depth then
    advance
  return .inl (found.toList ++ read)

theorem blockStatements_eq_loop (nested : Nested) (depth : Nat) :
    blockStatements nested depth = loop (blockTurn nested depth) := by
  funext fuel
  induction fuel with
  | zero => rfl
  | succ fuel ih =>
      funext read
      simp only [blockStatements, loop_succ, blockTurn, bind_assoc, pure_bind, ite_bind,
        refuse_then, ih]

def climbTurn (nested : Nested) (strength : Int) (left : Node) : Parse (Node ⊕ Node) := do
  let c ← cursor
  if c.ahead.kind = .symbol .semicolon || c.ahead.kind.strength ≤ strength ||
      !continues c.ahead.kind then
    return .inr left
  advance
  let longer ← continuation nested left
  return .inl longer

theorem climb_eq_loop (nested : Nested) (strength : Int) :
    climb nested strength = loop (climbTurn nested strength) := by
  funext fuel
  induction fuel with
  | zero => rfl
  | succ fuel ih =>
      funext left
      simp only [climb, loop_succ, climbTurn, bind_assoc, pure_bind, ite_bind, ih]

def programTurn (nested : Nested) (read : List Node) : Parse (List Node ⊕ List Node) := do
  if (← current).kind = .finish then
    return .inr read.reverse
  let found ← recovering 0 (statement nested)
  advance
  return .inl (found.toList ++ read)

theorem programStatements_eq_loop (nested : Nested) :
    programStatements nested = loop (programTurn nested) := by
  funext fuel
  induction fuel with
  | zero => rfl
  | succ fuel ih =>
      funext read
      simp only [programStatements, loop_succ, programTurn, bind_assoc, pure_bind, ite_bind, ih]

theorem parameterTurn_takes (read : List Ident) (c : Cursor) :
    Taking c (parameterTurn read c) := by
  simp only [parameterTurn, aheadIs_bind, ite_run, advance_bind, pure_run, decide_eq_true_eq]
  split
  next hcomma =>
    have hpos : 0 < c.left := Cursor.left_pos_of_ahead (by simp [hcomma])
    have hname : Orderly 0 c.advance (identAhead c.advance) := identAhead_orderly .refl
    apply taking_bind hname
    intro name c' hreach _
    exact Nat.lt_of_le_of_lt hreach.left_le (Cursor.left_advance_lt hpos)
  next => exact taking_last _

section Nested

variable (hnested : ∀ strength c, Orderly limit c (nested strength c))
include hnested

/-- The comma is the token that a turn takes. -/
theorem itemTurn_takes (read : List Node) (c : Cursor) : Taking c (itemTurn nested read c) := by
  simp only [itemTurn, aheadIs_bind, ite_run, advance_bind, pure_run, decide_eq_true_eq]
  split
  next hcomma =>
    have hpos : 0 < c.left := Cursor.left_pos_of_ahead (by simp [hcomma])
    apply taking_bind (hnested _ _)
    intro item c' hreach _
    have hmoved : c.advance.Reach c' := (Cursor.Reach.refl.advance).trans hreach
    exact Nat.lt_of_le_of_lt hmoved.left_le (Cursor.left_advance_lt hpos)
  next => exact taking_last _

theorem pairTurn_takes (read : List (Node × Node)) (c : Cursor) :
    Taking c (pairTurn nested read c) := by
  simp only [pairTurn, advance_bind]
  apply taking_bind (hnested _ _)
  intro key c₁ h₁
  apply taking_expect
  simp only [advance_bind]
  apply taking_bind (hnested _ _)
  intro value c₂ h₂
  simp only [aheadIs_bind, ite_run, advance_bind, pure_run, decide_eq_true_eq]
  split
  next hcomma =>
    intro _
    have hpos : 0 < c₂.left := Cursor.left_pos_of_ahead (by simp [hcomma])
    have hmoved : c.Reach c₂ := (Cursor.Reach.refl.advance).trans (h₁.advance.advance.trans h₂)
    exact Nat.lt_of_lt_of_le (Cursor.left_advance_lt hpos) hmoved.left_le
  next => exact taking_last _

theorem recovering_orderly (depth : Int) (c : Cursor) :
    Orderly limit c (recovering depth (statement nested) c) :=
  (recovering_meets .refl (statement_orderly hnested .refl)).mono
    (fun _ _ h => h) (fun _ h => h.elim) fun _ h => h

/-- A statement that is left out has its tokens taken by skipping. -/
theorem blockTurn_takes (depth : Nat) (read : List Node) (c : Cursor) :
    Taking c (blockTurn nested depth read c) := by
  simp only [blockTurn, cursor_bind, ite_run, pure_run, refuse_bind]
  split
  next => exact taking_last _
  next hopen =>
    split
    next => trivial
    next hcurrent =>
      have hpos := Cursor.left_pos_of_current hcurrent
      apply taking_bind (recovering_orderly hnested depth c)
      intro found c' hreach
      simp only [cursor_bind, ite_run, advance_bind, pure_run]
      -- Without a move the block is closed, so there are fewer braces than before.
      split
      next => exact fun _ => hreach.left_advance_lt hpos
      next hclosed => exact fun _ => hreach.left_lt_of_depth hpos (by omega)

theorem climbTurn_takes (strength : Int) (left : Node) (c : Cursor) :
    Taking c (climbTurn nested strength left c) := by
  simp only [climbTurn, cursor_bind, ite_run, pure_run, advance_bind]
  split
  next => exact taking_last _
  next hgo =>
    simp only [Bool.or_eq_true, Bool.not_eq_true', not_or, Bool.not_eq_false] at hgo
    have hpos := Cursor.left_pos_of_ahead (continues_ne_finish hgo.2)
    apply taking_bind (continuation_orderly hnested left (Cursor.Reach.refl.advance))
    intro longer c' hreach _
    exact Nat.lt_of_le_of_lt hreach.left_le (Cursor.left_advance_lt hpos)

theorem programTurn_takes (read : List Node) (c : Cursor) :
    Taking c (programTurn nested read c) := by
  simp only [programTurn, current_bind, ite_run, pure_run]
  split
  next => exact taking_last _
  next hcurrent =>
    apply taking_bind (recovering_orderly hnested 0 c)
    intro found c' hreach _
    exact hreach.left_advance_lt (Cursor.left_pos_of_current hcurrent)

end Nested

/-- All loops of the parser take a token in every turn but the last. -/
structure LoopsConsume (nested : Nested) : Prop where
  items : Consuming (moreItems nested)
  pairs : Consuming (hashPairs nested)
  parameters : Consuming moreParameters
  statements : ∀ depth, Consuming (blockStatements nested depth)
  operators : ∀ strength, Consuming (climb nested strength)
  program : Consuming (programStatements nested)

/-- The loops one by one, each with what a turn of it takes. -/
theorem loops_consume (hnested : ∀ strength c, Orderly limit c (nested strength c)) :
    LoopsConsume nested where
  items := ⟨_, moreItems_eq_loop nested, .of_taking (itemTurn_takes hnested)⟩
  pairs := ⟨_, hashPairs_eq_loop nested, .of_taking (pairTurn_takes hnested)⟩
  parameters := ⟨_, moreParameters_eq_loop, .of_taking parameterTurn_takes⟩
  statements depth :=
    ⟨_, blockStatements_eq_loop nested depth, .of_taking (blockTurn_takes hnested depth)⟩
  operators strength :=
    ⟨_, climb_eq_loop nested strength, .of_taking (climbTurn_takes hnested strength)⟩
  program := ⟨_, programStatements_eq_loop nested, .of_taking (programTurn_takes hnested)⟩

/-- One level of an expression, given what parses the expressions inside it. -/
def level (nested : Nested) (strength : Int) : Parse Node := do
  let first ← operand nested
  climb nested strength (← cursor).turns first

/-- One level of an expression calls the levels below it and nothing else. -/
theorem expression_succ (levels : Nat) : expression (levels + 1) = level (expression levels) :=
  rfl

theorem level_orderly (hnested : ∀ strength c, Orderly limit c (nested strength c))
    (strength : Int) (c : Cursor) : Orderly (limit + 1) c (level nested strength c) := by
  apply orderly_bind .refl (operand_orderly hnested c)
  intro first c₁ h₁
  exact climb_orderly hnested strength _ first h₁ (Cursor.left_le_turns c₁)

theorem level_follows {nested' : Nested}
    (hnested : ∀ strength, Follows (nested strength) (nested' strength)) (strength : Int) :
    Follows (level nested strength) (level nested' strength) := by
  apply (operand_follows hnested).bind
  intro first
  apply Follows.step
  intro c
  exact climb_follows hnested strength c.turns first

/-- Gives up unless there are fewer than `limit` tokens left. -/
def below (limit : Nat) (nested : Nested) : Nested := fun strength c =>
  if c.left < limit then nested strength c else .tooDeep c

/-- Rules that may only nest where fewer tokens are left still have what they need. -/
theorem below_orderly {levels : Nat}
    (hnested : ∀ strength c, Orderly levels c (nested strength c)) (hlimit : limit ≤ levels)
    (strength : Int) (c : Cursor) : Orderly limit c (below limit nested strength c) := by
  unfold below
  split
  next hlt =>
    apply Meets.mono (hnested strength c)
    · exact fun _ _ h => h
    · exact fun _ h => h
    · rintro c' ⟨hreach, hle⟩
      omega
  next hge => exact ⟨.refl, by omega⟩

theorem below_follows {nested' : Nested}
    (h : ∀ strength c, c.left < limit → nested' strength c = nested strength c)
    (strength : Int) : Follows (below limit nested strength) (nested' strength) := by
  intro c
  unfold below
  split
  next hlt => exact .inl (h strength c hlt).symm
  next => exact .inr ⟨c, rfl⟩

/-- An expression asks for the expressions inside it only where fewer tokens are left: it does
not matter what their parser does anywhere else. -/
theorem level_eq {levels : Nat} (hlevels : c.left ≤ levels) {nested' : Nested}
    (h : ∀ strength c', c'.left < c.left → nested' strength c' = expression levels strength c')
    (strength : Int) : level nested' strength c = expression (levels + 1) strength c := by
  let asked := below c.left (expression levels)
  have hends : (level asked strength c).Ends := by
    apply (level_orderly (below_orderly (expression_orderly levels) hlevels) strength c).ends
    exact Nat.lt_succ_self _
  have hown : Follows (level asked strength) (level (expression levels) strength) :=
    level_follows (below_follows fun _ _ _ => rfl) strength
  have hother : Follows (level asked strength) (level nested' strength) :=
    level_follows (below_follows h) strength
  rw [expression_succ, hown.eq_of_ends hends, hother.eq_of_ends hends]

/-- Where the statements of a program have been read, the tokens are used up. -/
theorem programStatements_finish (nested : Nested) (fuel : Nat) (read : List Node) (c : Cursor) :
    (programStatements nested fuel read c).Meets (fun _ c' => c'.current.kind = .finish)
      (fun _ => True) fun _ => True := by
  induction fuel generalizing read c with
  | zero => trivial
  | succ fuel ih =>
      simp only [programStatements, current_bind, ite_run, pure_run]
      split
      next hcurrent => exact hcurrent
      next =>
        rw [bind_meets]
        cases recovering 0 (statement nested) c with
        | done found c₁ => exact ih _ _
        | refused c₁ => trivial
        | tooDeep c₁ => trivial

section Levels

variable {levels : Nat} (hlevels : c.left < levels)
include hlevels

theorem program_ends : ∃ statements after,
    program levels c = .done (.program statements) after ∧ after.current.kind = .finish := by
  have hmeets := programStatements_meets (expression_orderly levels) c.turns [] .refl
    (Cursor.left_le_turns c)
  have hfinish := programStatements_finish (expression levels) c.turns [] c
  unfold program
  rw [cursor_bind, bind_run]
  revert hmeets hfinish
  cases programStatements (expression levels) c.turns [] c with
  | done statements after => exact fun _ hfinish => ⟨statements, after, rfl, hfinish⟩
  | refused after => exact fun hnever _ => hnever.elim
  | tooDeep after => exact fun hdeep _ => absurd hdeep.2 (by omega)

theorem recovering_ends (depth : Int) : ∃ found after,
    recovering depth (statement (expression levels)) c = .done found after := by
  have horderly := recovering_orderly (expression_orderly levels) depth c
  have hnever := recovering_ne_refused depth (statement (expression levels)) c
  revert horderly hnever
  cases recovering depth (statement (expression levels)) c with
  | done found after => exact fun _ _ => ⟨found, after, rfl⟩
  | refused after => exact fun _ hnever => absurd rfl (hnever after)
  | tooDeep after => exact fun hdeep _ => absurd hdeep.2 (by omega)

theorem expression_ends (strength : Int) : (expression levels strength c).Ends :=
  (expression_orderly levels strength c).ends hlevels

theorem block_ends : (block (expression levels) c).Ends :=
  (block_orderly levels c).ends hlevels

/-- With more levels to follow nothing changes. -/
theorem more_levels_agree {more : Nat} (hmore : levels ≤ more) :
    program more c = program levels c ∧
      block (expression more) c = block (expression levels) c ∧
      (∀ depth, recovering depth (statement (expression more)) c =
        recovering depth (statement (expression levels)) c) ∧
      ∀ strength, expression more strength c = expression levels strength c := by
  have hexpression := expression_follows hmore
  refine ⟨?_, ?_, ?_, ?_⟩
  · have hfollows : Follows (program levels) (program more) := by
      apply Follows.step
      intro start
      apply (programStatements_follows hexpression start.turns []).bind
      intro statements
      exact .refl _
    obtain ⟨statements, after, hdone, _⟩ := program_ends hlevels
    exact hfollows.eq_of_ends (by rw [hdone]; trivial)
  · have hfollows : Follows (block (expression levels)) (block (expression more)) := by
      apply Follows.step
      intro opening
      apply Follows.step
      intro _
      apply Follows.step
      intro first
      apply (blockStatements_follows hexpression opening.depth first.turns []).bind
      intro statements
      exact .refl _
    exact hfollows.eq_of_ends (block_ends hlevels)
  · intro depth
    obtain ⟨found, after, hdone⟩ := recovering_ends hlevels depth
    apply ((statement_follows hexpression).recovering depth).eq_of_ends
    rw [hdone]
    trivial
  · intro strength
    exact (hexpression strength).eq_of_ends (expression_ends hlevels strength)

end Levels

/-- Any list of tokens, with finishing tokens in the middle or without, is parsed as a program if
there are more levels than tokens. More than that, from any place in any tokens, with more levels
than there are tokens left: a program is read to the end; skipping the rest of a statement takes
token after token up to the first place where it may stop; a block, a statement that is recovered
from and an expression come to an end; and none of this changes with more levels. Every loop takes
a token in each turn but the last, and an expression is parsed by what its parser does where fewer
tokens are left, whatever it would do elsewhere. -/
theorem parser_terminates (levels : Nat) :
    (∀ tokens : List Token, tokens.length < levels → ∃ statements diagnostics,
      Reading.ofTokens levels tokens = .parsed (.program statements) diagnostics) ∧
    ∀ c : Cursor, c.left < levels →
      (∃ statements after, program levels c = .done (.program statements) after ∧
        after.current.kind = .finish) ∧
      (∀ depth, ∃ n ≤ c.left, c.synchronize depth = Cursor.advance^[n] c ∧
        (Cursor.advance^[n] c).Stops depth ∧ ∀ k < n, ¬ (Cursor.advance^[k] c).Stops depth) ∧
      (block (expression levels) c).Ends ∧
      (∀ depth, ∃ found after,
        recovering depth (statement (expression levels)) c = .done found after) ∧
      (∀ strength, (expression levels strength c).Ends) ∧
      (∀ more, levels ≤ more →
        program more c = program levels c ∧
        block (expression more) c = block (expression levels) c ∧
        (∀ depth, recovering depth (statement (expression more)) c =
          recovering depth (statement (expression levels)) c) ∧
        ∀ strength, expression more strength c = expression levels strength c) ∧
      LoopsConsume (expression levels) ∧
      ∀ nested : Nested,
        (∀ strength c', c'.left < c.left → nested strength c' = expression levels strength c') →
        ∀ strength, level nested strength c = expression levels strength c := by
  refine ⟨fun _ => Reading.ofTokens_parsed, ?_⟩
  intro c hlevels
  refine ⟨program_ends hlevels, c.synchronize_stops, block_ends hlevels,
    recovering_ends hlevels, expression_ends hlevels, fun _ => more_levels_agree hlevels,
    loops_consume (expression_orderly levels), ?_⟩
  intro nested hnested strength
  obtain ⟨_, _, _, hsame⟩ := more_levels_agree hlevels (Nat.le_succ levels)
  rw [level_eq (Nat.le_of_lt hlevels) hnested strength, hsame]

/-- `let {`, the end of the source, and then `}; (` all the same. -/
def strays : List Token :=
  [⟨.keyword .letWord, "let", 1, 1⟩, ⟨.symbol .leftBrace, "\x7b", 1, 5⟩, .finish 1 6,
    ⟨.symbol .rightBrace, "\x7d", 1, 6⟩, ⟨.symbol .semicolon, ";", 1, 7⟩,
    ⟨.symbol .leftParen, "(", 1, 8⟩]

theorem strays_terminate : strays.length < 9 ∧ (Cursor.ofTokens strays).left < 9 ∧
    (∃ statements diagnostics,
      Reading.ofTokens 9 strays = .parsed (.program statements) diagnostics) ∧
    ∃ n ≤ 6, (Cursor.ofTokens strays).synchronize 1 = Cursor.advance^[n] (.ofTokens strays) := by
  have hlength : strays.length < 9 := by decide
  have hleft : (Cursor.ofTokens strays).left < 9 := by decide
  obtain ⟨hparsed, hanywhere⟩ := parser_terminates 9
  obtain ⟨_, hskip, _⟩ := hanywhere (.ofTokens strays) hleft
  obtain ⟨n, hn, heq, _⟩ := hskip 1
  exact ⟨hlength, hleft, hparsed strays hlength, n, Nat.le_trans hn (by decide), heq⟩

end Parse

end Scriptlet
