import Scriptlet.Proofs.Parse.Outcome

/-!
What a parser sees of its tokens. A relabelling changes positions and the
spelling of keywords but no kind and no other value. Every parser commutes with
relabelling the tokens it reads and with diagnostics that were recorded before
it began: its trees and new diagnostics are the relabelled ones, and nothing
else changes. The identity is a relabelling, so in particular the past has no
influence on what is parsed next.
-/

namespace Scriptlet

/-- A change of tokens that parsers do not notice. -/
structure Relabelling where
  token : Token → Token
  kind_token : ∀ t, (token t).kind = t.kind
  value_token : ∀ t, (∀ word, t.kind ≠ .keyword word) → (token t).value = t.value

namespace Relabelling

def identity : Relabelling := ⟨id, fun _ => rfl, fun _ _ => rfl⟩

variable (r : Relabelling)

def ident (id : Ident) : Ident := ⟨r.token id.token, id.name⟩

def diagnostic : Diagnostic → Diagnostic
  | .expected wanted found => .expected wanted (r.token found)
  | .noExpression found => .noExpression (r.token found)
  | .badInteger text => .badInteger text

mutual

/-- The tree with every token changed. -/
def node : Node → Node
  | .bare t => .bare (r.token t)
  | .program statements => .program (nodes statements)
  | .block t statements => .block (r.token t) (nodes statements)
  | .binding t name value => .binding (r.token t) (r.ident name) (node value)
  | .ret t none => .ret (r.token t) none
  | .ret t (some value) => .ret (r.token t) (some (node value))
  | .expression t value => .expression (r.token t) (node value)
  | .ident id => .ident (r.ident id)
  | .integer t value => .integer (r.token t) value
  | .boolean t value => .boolean (r.token t) value
  | .text t value => .text (r.token t) value
  | .array t elements => .array (r.token t) (nodes elements)
  | .hash t entries => .hash (r.token t) (pairs entries)
  | .unary t operator operand => .unary (r.token t) operator (node operand)
  | .binary t left operator right => .binary (r.token t) (node left) operator (node right)
  | .conditional t condition consequence none =>
    .conditional (r.token t) (node condition) (node consequence) none
  | .conditional t condition consequence (some alternative) =>
    .conditional (r.token t) (node condition) (node consequence) (some (node alternative))
  | .function t parameters body =>
    .function (r.token t) (parameters.map r.ident) (node body)
  | .call t callee arguments => .call (r.token t) (node callee) (nodes arguments)
  | .index t collection place => .index (r.token t) (node collection) (node place)

def nodes : List Node → List Node
  | [] => []
  | n :: ns => node n :: nodes ns

def pairs : List (Node × Node) → List (Node × Node)
  | [] => []
  | (key, value) :: entries => (node key, node value) :: pairs entries

end

theorem nodes_eq_map (ns : List Node) : r.nodes ns = ns.map r.node := by
  induction ns with
  | nil => rfl
  | cons n ns ih => rw [nodes, ih, List.map_cons]

theorem pairs_eq_map (entries : List (Node × Node)) :
    r.pairs entries = entries.map fun entry => (r.node entry.1, r.node entry.2) := by
  induction entries with
  | nil => rfl
  | cons entry entries ih => rw [pairs, ih, List.map_cons]

mutual

/-- The identity changes no tree, which makes a plain statement of one about relabelled trees. -/
theorem identity_node : ∀ n : Node, identity.node n = n
  | .bare _ | .ident _ | .integer _ _ | .boolean _ _ | .text _ _ | .ret _ none => rfl
  | .program statements => by rw [node, identity_nodes statements]
  | .block t statements => by rw [node, identity_nodes statements]; rfl
  | .binding t name value => by rw [node, identity_node value]; rfl
  | .ret t (some value) => by rw [node, identity_node value]; rfl
  | .expression t value => by rw [node, identity_node value]; rfl
  | .array t elements => by rw [node, identity_nodes elements]; rfl
  | .hash t entries => by rw [node, identity_pairs entries]; rfl
  | .unary t operator operand => by rw [node, identity_node operand]; rfl
  | .binary t left operator right => by
    rw [node, identity_node left, identity_node right]; rfl
  | .conditional t condition consequence none => by
    rw [node, identity_node condition, identity_node consequence]; rfl
  | .conditional t condition consequence (some alternative) => by
    rw [node, identity_node condition, identity_node consequence,
      identity_node alternative]
    rfl
  | .function t parameters body => by
    have hparameters : parameters.map identity.ident = parameters := List.map_id _
    rw [node, identity_node body, hparameters]
    rfl
  | .call t callee arguments => by
    rw [node, identity_node callee, identity_nodes arguments]; rfl
  | .index t collection place => by
    rw [node, identity_node collection, identity_node place]; rfl

theorem identity_nodes : ∀ ns : List Node, identity.nodes ns = ns
  | [] => rfl
  | n :: ns => by rw [nodes, identity_node n, identity_nodes ns]

theorem identity_pairs : ∀ entries : List (Node × Node), identity.pairs entries = entries
  | [] => rfl
  | (key, value) :: entries => by
    rw [pairs, identity_node key, identity_node value, identity_pairs entries]

end

theorem identity_diagnostic (d : Diagnostic) : identity.diagnostic d = d := by
  cases d <;> rfl

/-- Behind the last token the finishing token is made from its position, changed or not. -/
@[simp] theorem token_finish (line column : Nat) :
    Token.finish (r.token (.finish line column)).line (r.token (.finish line column)).column =
      r.token (.finish line column) := by
  have hkind := r.kind_token (.finish line column)
  have hvalue := r.value_token (.finish line column) (by intro word h; cases h)
  revert hkind hvalue
  cases r.token (.finish line column) with
  | mk kind value line column =>
      rintro rfl rfl
      rfl

/-- The same place among relabelled tokens, with diagnostics from before. -/
def cursor (past : List Diagnostic) (c : Cursor) : Cursor where
  current := r.token c.current
  ahead := r.token c.ahead
  rest := c.rest.map r.token
  endLine := (r.token (.finish c.endLine c.endColumn)).line
  endColumn := (r.token (.finish c.endLine c.endColumn)).column
  depth := c.depth
  diagnostics := past ++ c.diagnostics.map r.diagnostic

variable (past : List Diagnostic)

@[simp] theorem cursor_current (c : Cursor) :
    (r.cursor past c).current = r.token c.current := rfl

@[simp] theorem cursor_ahead (c : Cursor) :
    (r.cursor past c).ahead = r.token c.ahead := rfl

@[simp] theorem cursor_depth (c : Cursor) : (r.cursor past c).depth = c.depth := rfl

@[simp] theorem cursor_turns (c : Cursor) : (r.cursor past c).turns = c.turns := by
  simp [cursor, Cursor.turns]

/-- The changed tokens are moved over as the tokens are: braces go by kind. -/
theorem cursor_advance (c : Cursor) :
    (r.cursor past c).advance = r.cursor past c.advance := by
  obtain ⟨current, ahead, rest, endLine, endColumn, depth, diagnostics⟩ := c
  cases rest with
  | nil => simp [cursor, Cursor.advance, r.kind_token]
  | cons t rest => simp [cursor, Cursor.advance, r.kind_token]

/-- Diagnostics are changed with the tokens they name. -/
theorem cursor_record (c : Cursor) (d : Diagnostic) :
    (r.cursor past c).record (r.diagnostic d) = r.cursor past (c.record d) := by
  simp [cursor, Cursor.record]

/-- Skipping a statement goes by kinds and by the count of braces, and stops at the same token. -/
theorem cursor_synchronize (depth : Int) (c : Cursor) :
    (r.cursor past c).synchronize depth = r.cursor past (c.synchronize depth) := by
  have hgo (fuel : Nat) (c : Cursor) :
      Cursor.synchronize.go depth fuel (r.cursor past c) =
        r.cursor past (Cursor.synchronize.go depth fuel c) := by
    induction fuel generalizing c with
    | zero => rfl
    | succ fuel ih =>
        rw [Cursor.synchronize.go, Cursor.synchronize.go, cursor_current, r.kind_token,
          cursor_depth, cursor_advance, ih, apply_ite (r.cursor past),
          apply_ite (r.cursor past)]
  rw [Cursor.synchronize, cursor_turns, hgo, Cursor.synchronize]

/-- An outcome with its value and its cursor changed. -/
def outcome {α : Type} (value : α → α) : Parsed α → Parsed α
  | .done a c => .done (value a) (r.cursor past c)
  | .refused c => .refused (r.cursor past c)
  | .tooDeep c => .tooDeep (r.cursor past c)

end Relabelling

namespace Parse

variable {α β : Type} {r : Relabelling} {past : List Diagnostic} {nested : Nested}

/-- From the changed start the first part comes to the changed end, and the second goes on from
there. -/
theorem bind_relabel {p p' : Parse α} {next next' : α → Parse β} {c : Cursor}
    {value : α → α} {value' : β → β}
    (hp : p' (r.cursor past c) = r.outcome past value (p c))
    (hnext : ∀ a c, next' (value a) (r.cursor past c) =
      r.outcome past value' (next a c)) :
    (p' >>= next') (r.cursor past c) = r.outcome past value' ((p >>= next) c) := by
  rw [bind_run, bind_run, hp]
  cases p c with
  | done a c' => exact hnext a c'
  | refused c' => rfl
  | tooDeep c' => rfl

/-- The kind ahead decides, and it is the same. -/
theorem expect_relabel {kind : Kind} {next next' : Unit → Parse α} {c : Cursor}
    {value : α → α}
    (hnext : c.ahead.kind = kind → next' () (r.cursor past c.advance) =
      r.outcome past value (next () c.advance)) :
    (expect kind >>= next') (r.cursor past c) =
      r.outcome past value ((expect kind >>= next) c) := by
  simp only [expect_bind, Relabelling.cursor_ahead, r.kind_token, r.cursor_advance]
  split
  next h => exact hnext h
  next => exact congrArg Parsed.refused (r.cursor_record past c (.expected kind c.ahead))

theorem skipIf_relabel (kind : Kind) (c : Cursor) :
    skipIf kind (r.cursor past c) = r.outcome past id (skipIf kind c) := by
  simp only [skipIf, Relabelling.cursor_ahead, r.kind_token, r.cursor_advance]
  split <;> rfl

/-- Only the number of new diagnostics decides whether a statement stays. -/
theorem recovering_relabel (depth : Int) {statement : Parse Node}
    (h : ∀ c, statement (r.cursor past c) = r.outcome past r.node (statement c))
    (c : Cursor) :
    recovering depth statement (r.cursor past c) =
      r.outcome past (Option.map r.node) (recovering depth statement c) := by
  unfold recovering
  rw [h c]
  cases statement c with
  | done n after =>
      simp only [Relabelling.outcome, Relabelling.cursor, List.length_append,
        List.length_map, Nat.add_lt_add_iff_left]
      split <;> rfl
  | refused after =>
      simp only [Relabelling.outcome, r.cursor_synchronize, Option.map_none]
  | tooDeep after => rfl

/-- The value of a number is the token's value, which stays for every kind but keywords. -/
theorem integerLiteral_relabel (c : Cursor) (hkind : c.current.kind = .number) :
    integerLiteral (r.cursor past c) = r.outcome past r.node (integerLiteral c) := by
  have hvalue := r.value_token c.current (by rw [hkind]; intro word h; cases h)
  have hrefuse := r.cursor_record past c (.badInteger c.current.value)
  rw [Relabelling.diagnostic] at hrefuse
  simp only [integerLiteral_run, Relabelling.cursor_current, hvalue, hrefuse]
  split
  · split <;> rfl
  · rfl

theorem identAhead_relabel (c : Cursor) :
    identAhead (r.cursor past c) = r.outcome past r.ident (identAhead c) := by
  refine expect_relabel fun hkind => ?_
  have hvalue := r.value_token c.ahead (by rw [hkind]; intro word h; cases h)
  simp [Relabelling.outcome, Relabelling.ident, hvalue]

theorem moreParameters_relabel (fuel : Nat) (read : List Ident) (c : Cursor) :
    moreParameters fuel (read.map r.ident) (r.cursor past c) =
      r.outcome past (List.map r.ident) (moreParameters fuel read c) := by
  induction fuel generalizing read c with
  | zero => rfl
  | succ fuel ih =>
      simp only [moreParameters, aheadIs_bind, ite_run, advance_bind, pure_run,
        decide_eq_true_eq, Relabelling.cursor_ahead, r.kind_token, r.cursor_advance]
      split
      · exact bind_relabel (identAhead_relabel _) fun name c => ih (name :: read) c
      · simp only [Relabelling.outcome, List.map_reverse]

theorem parameters_relabel (c : Cursor) :
    parameters (r.cursor past c) = r.outcome past (List.map r.ident) (parameters c) := by
  simp only [parameters, aheadIs_bind, ite_run, advance_bind, pure_run,
    decide_eq_true_eq, Relabelling.cursor_ahead, r.kind_token, r.cursor_advance]
  split
  · rfl
  · refine bind_relabel (identAhead_relabel c) fun first c₁ => ?_
    simp only [cursor_bind, Relabelling.cursor_turns]
    exact bind_relabel (moreParameters_relabel _ [first] c₁) fun names c₂ =>
      expect_relabel fun _ => rfl

section Nested

variable (hnested : ∀ strength c, nested strength (r.cursor past c) =
  r.outcome past r.node (nested strength c))
include hnested

theorem moreItems_relabel (fuel : Nat) (read : List Node) (c : Cursor) :
    moreItems nested fuel (r.nodes read) (r.cursor past c) =
      r.outcome past r.nodes (moreItems nested fuel read c) := by
  induction fuel generalizing read c with
  | zero => rfl
  | succ fuel ih =>
      simp only [moreItems, aheadIs_bind, ite_run, advance_bind, pure_run,
        decide_eq_true_eq, Relabelling.cursor_ahead, r.kind_token, r.cursor_advance]
      split
      · exact bind_relabel (hnested _ _) fun item c => ih (item :: read) c
      · simp only [Relabelling.outcome, r.nodes_eq_map, List.map_reverse]

theorem expressionList_relabel (closing : Kind) (c : Cursor) :
    expressionList nested closing (r.cursor past c) =
      r.outcome past r.nodes (expressionList nested closing c) := by
  simp only [expressionList, aheadIs_bind, ite_run, advance_bind, pure_run,
    decide_eq_true_eq, Relabelling.cursor_ahead, r.kind_token, r.cursor_advance]
  split
  · rfl
  · refine bind_relabel (hnested _ _) fun first c₁ => ?_
    simp only [cursor_bind, Relabelling.cursor_turns]
    exact bind_relabel (moreItems_relabel hnested _ [first] c₁) fun items c₂ =>
      expect_relabel fun _ => rfl

theorem hashPairs_relabel (fuel : Nat) (read : List (Node × Node)) (c : Cursor) :
    hashPairs nested fuel (r.pairs read) (r.cursor past c) =
      r.outcome past r.pairs (hashPairs nested fuel read c) := by
  induction fuel generalizing read c with
  | zero => rfl
  | succ fuel ih =>
      simp only [hashPairs, advance_bind, r.cursor_advance]
      refine bind_relabel (hnested _ _) fun key c₁ => expect_relabel fun _ => ?_
      simp only [advance_bind, r.cursor_advance]
      refine bind_relabel (hnested _ _) fun value c₂ => ?_
      simp only [aheadIs_bind, ite_run, advance_bind, pure_run, decide_eq_true_eq,
        Relabelling.cursor_ahead, r.kind_token, r.cursor_advance]
      split
      · exact ih ((key, value) :: read) _
      · simp only [Relabelling.outcome, r.pairs_eq_map, List.map_reverse, List.map_cons]

theorem hashLiteral_relabel (c : Cursor) :
    hashLiteral nested (r.cursor past c) =
      r.outcome past r.node (hashLiteral nested c) := by
  simp only [hashLiteral, current_bind, aheadIs_bind, ite_run, advance_bind, pure_run,
    cursor_bind, decide_eq_true_eq, Relabelling.cursor_ahead, r.kind_token,
    r.cursor_advance, Relabelling.cursor_turns, Relabelling.cursor_current]
  split
  · rfl
  · exact bind_relabel (hashPairs_relabel hnested _ [] c) fun pairs c₁ =>
      expect_relabel fun _ => rfl

theorem bindingStatement_relabel (c : Cursor) :
    bindingStatement nested (r.cursor past c) =
      r.outcome past r.node (bindingStatement nested c) := by
  simp only [bindingStatement, current_bind, Relabelling.cursor_current]
  refine bind_relabel (identAhead_relabel c) fun name c₁ => expect_relabel fun _ => ?_
  simp only [advance_bind, r.cursor_advance]
  exact bind_relabel (hnested _ _) fun value c₂ =>
    bind_relabel (skipIf_relabel _ c₂) fun _ c₃ => rfl

theorem returnStatement_relabel (c : Cursor) :
    returnStatement nested (r.cursor past c) =
      r.outcome past r.node (returnStatement nested c) := by
  simp only [returnStatement, current_bind, cursor_bind, ite_run, advance_bind,
    Relabelling.cursor_ahead, r.kind_token, r.cursor_advance, Relabelling.cursor_current]
  split
  · exact bind_relabel (skipIf_relabel _ c) fun _ c₁ => rfl
  · exact bind_relabel (hnested _ _) fun value c₁ =>
      bind_relabel (skipIf_relabel _ c₁) fun _ c₂ => rfl

theorem statement_relabel (c : Cursor) :
    statement nested (r.cursor past c) = r.outcome past r.node (statement nested c) := by
  simp only [statement_run, Relabelling.cursor_current, r.kind_token]
  split
  · exact bindingStatement_relabel hnested c
  · exact returnStatement_relabel hnested c
  · simp only [expressionStatement, current_bind, Relabelling.cursor_current]
    exact bind_relabel (hnested _ _) fun value c₁ =>
      bind_relabel (skipIf_relabel _ c₁) fun _ c₂ => rfl

/-- The brace that closes the block is the same, as it goes by the count of braces. -/
theorem blockStatements_relabel (depth fuel : Nat) (read : List Node) (c : Cursor) :
    blockStatements nested depth fuel (r.nodes read) (r.cursor past c) =
      r.outcome past r.nodes (blockStatements nested depth fuel read c) := by
  induction fuel generalizing read c with
  | zero => rfl
  | succ fuel ih =>
      simp only [blockStatements, cursor_bind, ite_run, pure_run, refuse_bind]
      simp only [Relabelling.cursor_depth, Relabelling.cursor_current, r.kind_token]
      split
      · simp only [Relabelling.outcome, r.nodes_eq_map, List.map_reverse]
      · split
        · exact congrArg Parsed.refused
            (r.cursor_record past c (.expected (.symbol .rightBrace) c.current))
        · refine bind_relabel (recovering_relabel _ (statement_relabel hnested) c)
            fun found c₁ => ?_
          simp only [cursor_bind, ite_run, advance_bind]
          simp only [Relabelling.cursor_depth, r.cursor_advance]
          have hread : (found.map r.node).toList ++ r.nodes read =
              r.nodes (found.toList ++ read) := by
            cases found <;> rfl
          rw [hread, ih, ih]
          split <;> rfl

theorem blockAhead_relabel (c : Cursor) :
    blockAhead nested (r.cursor past c) =
      r.outcome past r.node (blockAhead nested c) := by
  refine expect_relabel fun _ => ?_
  simp only [block, cursor_bind, advance_bind, r.cursor_advance,
    Relabelling.cursor_turns, Relabelling.cursor_depth, Relabelling.cursor_current]
  exact bind_relabel (blockStatements_relabel hnested _ _ [] _) fun statements c₁ => rfl

theorem conditional_relabel (c : Cursor) :
    conditional nested (r.cursor past c) =
      r.outcome past r.node (conditional nested c) := by
  simp only [conditional, current_bind, Relabelling.cursor_current]
  refine expect_relabel fun _ => ?_
  simp only [advance_bind, r.cursor_advance]
  refine bind_relabel (hnested _ _) fun condition c₁ => expect_relabel fun _ => ?_
  refine bind_relabel (blockAhead_relabel hnested _) fun consequence c₂ => ?_
  simp only [aheadIs_bind, ite_run, advance_bind, pure_run, decide_eq_true_eq,
    Relabelling.cursor_ahead, r.kind_token, r.cursor_advance]
  split
  · exact bind_relabel (blockAhead_relabel hnested _) fun alternative c₃ => rfl
  · rfl

theorem functionLiteral_relabel (c : Cursor) :
    functionLiteral nested (r.cursor past c) =
      r.outcome past r.node (functionLiteral nested c) := by
  simp only [functionLiteral, current_bind, Relabelling.cursor_current]
  refine expect_relabel fun _ => ?_
  refine bind_relabel (parameters_relabel _) fun names c₁ => ?_
  exact bind_relabel (blockAhead_relabel hnested _) fun body c₂ => rfl

/-- An operator is stored by its token's value, so the token must be none that may be respelled. -/
theorem unary_relabel (c : Cursor) (hkind : ∀ word, c.current.kind ≠ .keyword word) :
    unary nested (r.cursor past c) = r.outcome past r.node (unary nested c) := by
  simp only [unary, current_bind, advance_bind, r.cursor_advance,
    Relabelling.cursor_current, r.value_token _ hkind]
  exact bind_relabel (hnested _ _) fun operand c₁ => rfl

/-- A keyword begins an operand by its kind; its value goes into no tree. -/
theorem operand_relabel (c : Cursor) :
    operand nested (r.cursor past c) = r.outcome past r.node (operand nested c) := by
  have hvalue {kind : Kind} (h : c.current.kind = kind)
      (hword : ∀ word, kind ≠ .keyword word) :
      (r.token c.current).value = c.current.value :=
    r.value_token _ (by rwa [h])
  simp only [operand_run, Relabelling.cursor_current, r.kind_token]
  split
  next h =>
    simp [Relabelling.outcome, Relabelling.node, Relabelling.ident, hvalue h]
  next h => exact integerLiteral_relabel c h
  next h => simp [Relabelling.outcome, Relabelling.node, hvalue h]
  next => rfl
  next => rfl
  case h_6 h | h_7 h | h_8 h => exact unary_relabel hnested c (by simp [h])
  next =>
    simp only [grouped, advance_bind, r.cursor_advance]
    exact bind_relabel (hnested _ _) fun inner c₁ => expect_relabel fun _ => rfl
  next => exact conditional_relabel hnested c
  next => exact functionLiteral_relabel hnested c
  next =>
    simp only [arrayLiteral, current_bind, Relabelling.cursor_current]
    exact bind_relabel (expressionList_relabel hnested _ _) fun elements c₁ => rfl
  next => exact hashLiteral_relabel hnested c
  next =>
    exact congrArg Parsed.refused (r.cursor_record past c (.noExpression c.current))

/-- Only symbols continue an expression, and their values are kept. -/
theorem continuation_relabel (left : Node) (c : Cursor)
    (hkind : ∀ word, c.current.kind ≠ .keyword word) :
    continuation nested (r.node left) (r.cursor past c) =
      r.outcome past r.node (continuation nested left c) := by
  simp only [continuation_run, Relabelling.cursor_current, r.kind_token]
  split
  · simp only [callRest, current_bind, Relabelling.cursor_current]
    exact bind_relabel (expressionList_relabel hnested _ _) fun arguments c₁ => rfl
  · simp only [indexRest, current_bind, advance_bind, r.cursor_advance,
      Relabelling.cursor_current]
    exact bind_relabel (hnested _ _) fun place c₁ => expect_relabel fun _ => rfl
  · simp only [infixRest, current_bind, advance_bind, r.cursor_advance,
      Relabelling.cursor_current, r.kind_token, r.value_token _ hkind]
    exact bind_relabel (hnested _ _) fun right c₁ => rfl

theorem climb_relabel (strength : Int) (fuel : Nat) (left : Node) (c : Cursor) :
    climb nested strength fuel (r.node left) (r.cursor past c) =
      r.outcome past r.node (climb nested strength fuel left c) := by
  induction fuel generalizing left c with
  | zero => rfl
  | succ fuel ih =>
      simp only [climb, cursor_bind, ite_run, pure_run, advance_bind,
        Relabelling.cursor_ahead, r.kind_token, r.cursor_advance]
      split
      next => rfl
      next hgo =>
        simp only [Bool.or_eq_true, Bool.not_eq_true', not_or, Bool.not_eq_false] at hgo
        have hkind (word : Keyword) : c.advance.current.kind ≠ .keyword word := by
          rw [Cursor.advance_current]
          intro h
          rw [h] at hgo
          cases hgo.2
        exact bind_relabel (continuation_relabel hnested left _ hkind)
          fun longer c₁ => ih longer c₁

theorem programStatements_relabel (fuel : Nat) (read : List Node) (c : Cursor) :
    programStatements nested fuel (r.nodes read) (r.cursor past c) =
      r.outcome past r.nodes (programStatements nested fuel read c) := by
  induction fuel generalizing read c with
  | zero => rfl
  | succ fuel ih =>
      simp only [programStatements, current_bind, ite_run, pure_run,
        Relabelling.cursor_current, r.kind_token]
      split
      · simp only [Relabelling.outcome, r.nodes_eq_map, List.map_reverse]
      · refine bind_relabel (recovering_relabel _ (statement_relabel hnested) c)
          fun found c₁ => ?_
        have hread : (found.map r.node).toList ++ r.nodes read =
            r.nodes (found.toList ++ read) := by
          cases found <;> rfl
        simp only [advance_bind, r.cursor_advance, hread, ih]

end Nested

/-- By induction on the levels: a parser of expressions does not notice a relabelling. -/
theorem expression_relabel (levels : Nat) (strength : Int) (c : Cursor) :
    expression levels strength (r.cursor past c) =
      r.outcome past r.node (expression levels strength c) := by
  induction levels generalizing strength c with
  | zero => rfl
  | succ levels ih =>
      simp only [expression]
      refine bind_relabel (operand_relabel ih c) fun first c₁ => ?_
      simp only [cursor_bind, Relabelling.cursor_turns]
      exact climb_relabel ih strength _ first c₁

end Parse

end Scriptlet
