import Scriptlet.Proofs.Grammar.Soundness

/-!
What the grammar derives, the parser builds. By induction on the derivation, a
parser that stands on the tokens of a phrase reads just these and gives the tree
of the phrase, if what follows cannot go on with it. An expression is only known
to reach the loop over operators with its tree: whether it goes on from there is
decided by what follows, so a left operand is reached just as a whole expression
is.
-/

namespace Scriptlet

variable {α β : Type}

/-- The parser is done with a value, leaves these tokens and has recorded nothing
more. -/
def Parsed.Yields (past : List Diagnostic) (a : α) (rest : List Token)
    (outcome : Parsed α) : Prop :=
  ∃ c, outcome = .done a c ∧ c.upcoming = rest ∧ c.diagnostics = past

namespace Parse

open Parsed Cursor

variable {c : Cursor} {past : List Diagnostic} {rest : List Token} {nested : Nested}

theorem yields_done {a : α} (hrest : c.upcoming = rest) (hpast : c.diagnostics = past) :
    Yields past a rest (.done a c) :=
  ⟨c, rfl, hrest, hpast⟩

theorem yields_bind {p : Parse β} {next : β → Parse α} {a : α} {b : β}
    {rest' : List Token} (hp : Yields past b rest' (p c))
    (hnext : ∀ c', c'.upcoming = rest' → c'.diagnostics = past →
      Yields past a rest (next b c')) :
    Yields past a rest ((p >>= next) c) := by
  obtain ⟨c', hdone, hrest, hpast⟩ := hp
  rw [bind_run, hdone]
  exact hnext c' hrest hpast

theorem yields_expect {kind : Kind} {next : Unit → Parse α} {a : α} {t : Token}
    {ts : List Token} (hupcoming : c.upcoming = t :: ts) (hkind : t.kind = kind)
    (hnext : c.advance.current = t → c.advance.upcoming = ts →
      Yields past a rest (next () c.advance)) :
    Yields past a rest ((expect kind >>= next) c) := by
  obtain ⟨hahead, hbehind⟩ := upcoming_cons hupcoming
  rw [expect_bind, hahead, if_pos hkind]
  exact hnext (by rw [advance_current, hahead]) hbehind

/-- With what follows, a statement's end is read: a semicolon belongs to it. -/
def pastSemicolon (rest : List Token) : List Token :=
  if nextKind rest = .symbol .semicolon then rest.tail else rest

theorem yields_skipIf {statement : Node} (hrest : c.upcoming = rest)
    (hpast : c.diagnostics = past) :
    Yields past statement (pastSemicolon rest)
      ((do skipIf (.symbol .semicolon); return statement : Parse Node) c) := by
  have hkind := nextKind_upcoming c
  rw [hrest] at hkind
  simp only [bind_run, skipIf, pastSemicolon, hkind]
  by_cases hsemicolon : c.ahead.kind = .symbol .semicolon
  · simp only [hsemicolon, if_true]
    refine yields_done ?_ (by simpa using hpast)
    rw [← hrest, upcoming_of_kind hsemicolon (by simp), List.tail_cons]
  · simp only [hsemicolon, if_false]
    exact yields_done hrest hpast

/-- Parsing an expression from `c` comes to the loop over operators with `tree`
on its left and `rest` before it. -/
def Reaches (levels : Nat) (strength : Int) (c : Cursor) (tree : Node)
    (rest : List Token) : Prop :=
  ∃ c' fuel, expression (levels + 1) strength c =
      climb (expression levels) strength fuel tree c' ∧
    c'.upcoming = rest ∧ c'.diagnostics = c.diagnostics ∧ rest.length < fuel

variable {levels : Nat} {strength : Int} {tree : Node}

/-- Nothing follows that binds more strongly or would be the other branch of a
condition. -/
def Stopped (strength : Int) (rest : List Token) : Prop :=
  (nextKind rest).strength ≤ strength ∧ nextKind rest ≠ .keyword .elseWord

theorem stopped_of_kind {kind : Kind} (h : nextKind rest = kind)
    (hstrength : kind.strength ≤ strength) (helse : kind ≠ .keyword .elseWord) :
    Stopped strength rest := by
  rw [← h] at hstrength helse
  exact ⟨hstrength, helse⟩

theorem Stopped.mono {strength' : Int} (h : Stopped strength rest)
    (hle : strength ≤ strength') : Stopped strength' rest :=
  ⟨Int.le_trans h.1 hle, h.2⟩

/-- Nothing that binds more strongly follows, so the expression is over. -/
theorem Reaches.yields (h : Reaches levels strength c tree rest)
    (hstop : (nextKind rest).strength ≤ strength) :
    Yields c.diagnostics tree rest (expression (levels + 1) strength c) := by
  obtain ⟨c', fuel, heq, hrest, hpast, hfuel⟩ := h
  obtain ⟨fuel, rfl⟩ : ∃ k, fuel = k + 1 := ⟨fuel - 1, by omega⟩
  have hkind := nextKind_upcoming c'
  rw [hrest] at hkind
  rw [hkind] at hstop
  rw [heq]
  simp only [climb, cursor_bind, ite_run, pure_run]
  rw [if_pos (by simp [hstop])]
  exact yields_done hrest hpast

theorem reaches_of_operand
    (h : Yields c.diagnostics tree rest (operand (expression levels) c)) :
    Reaches levels strength c tree rest := by
  obtain ⟨c', hdone, hrest, hpast⟩ := h
  have hlength := c'.upcoming_length_lt
  rw [hrest] at hlength
  refine ⟨c', c'.turns, ?_, hrest, hpast, by omega⟩
  simp only [expression]
  rw [bind_done hdone]
  rfl

/-- One more turn of the loop, over the operator `t`. -/
theorem Reaches.extend {left : Node} {t : Token} {ts : List Token}
    (h : Reaches levels strength c left (t :: ts))
    (hcontinues : continues t.kind = true) (hstrength : strength < t.kind.strength)
    (hlength : rest.length ≤ ts.length)
    (hnext : ∀ c₁ : Cursor, c₁.current = t → c₁.upcoming = ts →
      c₁.diagnostics = c.diagnostics →
      Yields c.diagnostics tree rest (continuation (expression levels) left c₁)) :
    Reaches levels strength c tree rest := by
  obtain ⟨c', fuel, heq, hrest, hpast, hfuel⟩ := h
  rw [List.length_cons] at hfuel
  obtain ⟨fuel, rfl⟩ : ∃ k, fuel = k + 1 := ⟨fuel - 1, by omega⟩
  obtain ⟨hahead, hbehind⟩ := upcoming_cons hrest
  have hcurrent : c'.advance.current = t := by rw [advance_current, hahead]
  obtain ⟨c₂, hdone, hrest₂, hpast₂⟩ :=
    hnext c'.advance hcurrent hbehind (by rwa [advance_diagnostics])
  refine ⟨c₂, fuel, ?_, hrest₂, hpast₂, by omega⟩
  have hsemicolon : t.kind ≠ .symbol .semicolon := by
    intro hkind
    rw [hkind] at hcontinues
    cases hcontinues
  have hgo : ¬ ((decide (t.kind = .symbol .semicolon) ||
      decide (t.kind.strength ≤ strength) || !continues t.kind) = true) := by
    simp [hsemicolon, hcontinues]
    omega
  rw [heq]
  simp only [climb, cursor_bind, ite_run, advance_bind, hahead]
  rw [if_neg hgo, bind_done hdone]

def CompletePairs (trees : List (Node × Node)) (ts : List Token) : Prop :=
  ∀ levels fuel read (c : Cursor) rest, ts.length < levels →
    nextKind rest = .symbol .rightBrace → c.upcoming = ts ++ rest →
    c.upcoming.length < fuel →
    Yields c.diagnostics (read.reverse ++ trees) rest
      (hashPairs (expression levels) fuel read c)

/-- The parser that is responsible for a phrase reads it wherever it stands. -/
def Complete : Phrase → List Token → Prop
  | .expr level tree, ts => ∀ levels strength c rest, ts.length ≤ levels → strength ≤ 8 →
    (strength < level.strength ∨ 8 ≤ level.strength) → c.standing = ts ++ rest →
    Stopped level.strength rest → Reaches levels strength c tree rest
  | .items trees, ts => ∀ levels (c : Cursor) (closing : Token) rest, ts.length < levels →
    (closing.kind = .symbol .rightParen ∨ closing.kind = .symbol .rightBracket) →
    c.upcoming = ts ++ closing :: rest →
    Yields c.diagnostics trees rest (expressionList (expression levels) closing.kind c)
  | .itemsTail trees, ts => ∀ levels fuel read (c : Cursor) rest, ts.length < levels →
    (nextKind rest = .symbol .rightParen ∨ nextKind rest = .symbol .rightBracket) →
    c.upcoming = ts ++ rest → c.upcoming.length < fuel →
    Yields c.diagnostics (read.reverse ++ trees) rest
      (moreItems (expression levels) fuel read c)
  | .pairs trees, ts => trees ≠ [] → CompletePairs trees ts
  | .pairsTail trees, ts => (trees = [] ∧ ts = []) ∨
    ∃ comma us, ts = comma :: us ∧ comma.kind = .symbol .comma ∧ CompletePairs trees us
  | .names trees, ts => ∀ (c : Cursor) (closing : Token) rest,
    closing.kind = .symbol .rightParen → c.upcoming = ts ++ closing :: rest →
    Yields c.diagnostics trees rest (parameters c)
  | .namesTail trees, ts => ∀ fuel read (c : Cursor) rest,
    nextKind rest = .symbol .rightParen → c.upcoming = ts ++ rest →
    c.upcoming.length < fuel →
    Yields c.diagnostics (read.reverse ++ trees) rest (moreParameters fuel read c)
  | .block tree, ts => ∀ levels (c : Cursor) rest, ts.length < levels →
    c.upcoming = ts ++ rest →
    Yields c.diagnostics tree rest (blockAhead (expression levels) c)
  | .statement tree, ts => ∀ levels (c : Cursor) rest, ts.length < levels →
    (tree.Stops (nextKind rest) ∨ nextKind rest = .symbol .semicolon) →
    nextKind rest ≠ .keyword .elseWord → c.standing = ts ++ rest →
    Yields c.diagnostics tree (pastSemicolon rest) (statement (expression levels) c)
  | .statements trees, ts => ∀ levels (c : Cursor) rest, ts.length < levels →
    (nextKind rest = .symbol .rightBrace ∨ rest = []) → c.standing = ts ++ rest →
    ∃ c', Reads (expression levels) c trees c' ∧ c'.standing = rest ∧
      c'.diagnostics = c.diagnostics

variable {level : Level} {ts us : List Token} {trees : List Node}

theorem Complete.yields (h : Complete (.expr level tree) ts) (hlevels : ts.length < levels)
    (hmost : strength ≤ 8) (hstrength : strength < level.strength ∨ 8 ≤ level.strength)
    (hpast : c.diagnostics = past) (hstanding : c.standing = ts ++ rest)
    (hstop : Stopped strength rest) :
    Yields past tree rest (expression levels strength c) := by
  obtain ⟨levels, rfl⟩ : ∃ k, levels = k + 1 := ⟨levels - 1, by omega⟩
  have hreaches := h levels strength c rest (by omega) hmost hstrength hstanding
    (hstop.mono (by omega))
  rw [← hpast]
  exact hreaches.yields hstop.1

/-- A whole expression, before anything that does not go on with it. -/
theorem Complete.lowest (h : Complete (.expr .or tree) ts) (hlevels : ts.length < levels)
    (hpast : c.diagnostics = past) (hstanding : c.standing = ts ++ rest)
    (hstop : Stopped 1 rest) :
    Yields past tree rest (expression levels Parse.lowest c) :=
  h.yields hlevels (by decide) (.inl (by decide)) hpast hstanding hstop

theorem begins_ahead (h : Derives (.expr level tree) ts) (hupcoming : c.upcoming = ts ++ rest) :
    c.ahead.kind.begins = true := by
  rw [← nextKind_upcoming, hupcoming]
  exact Derives.begins_append h.starts rest

/-- A list goes on with a comma or is over. -/
theorem stopped_tail (hus : us = [] ∨ nextKind us = .symbol .comma)
    (hrest : Stopped 1 rest) : Stopped 1 (us ++ rest) := by
  rcases hus with rfl | hcomma
  · exact hrest
  · have hnext : nextKind (us ++ rest) = .symbol .comma := by
      rw [Derives.nextKind_append (by simp [hcomma]), hcomma]
    exact stopped_of_kind hnext (by decide) (by simp)

theorem itemsTail_next (h : Derives (.itemsTail trees) us) :
    us = [] ∨ nextKind us = .symbol .comma := by
  cases h with
  | itemsEnd => exact .inl rfl
  | itemsNext hcomma => exact .inr hcomma

theorem complete_itemsEnd : Complete (.itemsTail []) [] := by
  intro levels fuel read c rest _ hrest hupcoming hfuel
  obtain ⟨fuel, rfl⟩ : ∃ k, fuel = k + 1 := ⟨fuel - 1, by omega⟩
  have hkind := nextKind_upcoming c
  rw [hupcoming, List.nil_append] at hkind
  have hcomma : c.ahead.kind ≠ .symbol .comma := by
    rw [← hkind]
    rcases hrest with hrest | hrest <;> simp [hrest]
  simp only [moreItems, aheadIs_bind, ite_run, pure_run, decide_eq_true_eq]
  rw [if_neg hcomma, List.append_nil]
  exact yields_done hupcoming rfl

theorem complete_itemsNext {comma : Token} (hcomma : comma.kind = .symbol .comma)
    (hfirst : Complete (.expr .or tree) ts) (hus : us = [] ∨ nextKind us = .symbol .comma)
    (htail : Complete (.itemsTail trees) us) :
    Complete (.itemsTail (tree :: trees)) (comma :: (ts ++ us)) := by
  intro levels fuel read c rest hlevels hrest hupcoming hfuel
  obtain ⟨fuel, rfl⟩ : ∃ k, fuel = k + 1 := ⟨fuel - 1, by omega⟩
  simp only [List.length_cons, List.length_append] at hlevels
  rw [List.cons_append, List.append_assoc] at hupcoming
  obtain ⟨hahead, hbehind⟩ := upcoming_cons hupcoming
  have hstop : Stopped 1 (us ++ rest) := by
    apply stopped_tail hus
    rcases hrest with hrest | hrest <;> exact stopped_of_kind hrest (by decide) (by simp)
  simp only [moreItems, aheadIs_bind, ite_run, advance_bind, decide_eq_true_eq]
  rw [hahead, if_pos hcomma]
  apply yields_bind (hfirst.lowest (by omega) (by simp) (by rwa [standing_advance]) hstop)
  intro c₁ hupcoming₁ hpast₁
  have hrun := htail levels fuel (tree :: read) c₁ rest (by omega) hrest hupcoming₁ ?_
  · rw [hpast₁] at hrun
    simpa using hrun
  · rw [hupcoming] at hfuel
    rw [hupcoming₁]
    simp only [List.length_cons, List.length_append] at hfuel ⊢
    omega

theorem complete_noItems : Complete (.items []) [] := by
  intro levels c closing rest _ _ hupcoming
  obtain ⟨hahead, hbehind⟩ := upcoming_cons hupcoming
  simp only [expressionList, aheadIs_bind, ite_run, advance_bind, pure_run,
    decide_eq_true_eq]
  rw [hahead, if_pos rfl]
  exact yields_done hbehind (by simp)

theorem complete_items (hderives : Derives (.expr .or tree) ts)
    (hfirst : Complete (.expr .or tree) ts) (hus : us = [] ∨ nextKind us = .symbol .comma)
    (htail : Complete (.itemsTail trees) us) :
    Complete (.items (tree :: trees)) (ts ++ us) := by
  intro levels c closing rest hlevels hclosing hupcoming
  rw [List.length_append] at hlevels
  rw [List.append_assoc] at hupcoming
  have hahead : c.ahead.kind ≠ closing.kind := by
    have hbegins := begins_ahead hderives hupcoming
    intro hsame
    rw [hsame] at hbegins
    rcases hclosing with hclosing | hclosing <;> simp [hclosing, Kind.begins] at hbegins
  have hstop : Stopped 1 (us ++ closing :: rest) := by
    apply stopped_tail hus
    rcases hclosing with hclosing | hclosing <;>
      exact stopped_of_kind hclosing (by decide) (by simp)
  simp only [expressionList, aheadIs_bind, ite_run, advance_bind, decide_eq_true_eq]
  rw [if_neg hahead]
  apply yields_bind (hfirst.lowest (by omega) (by simp) (by rwa [standing_advance]) hstop)
  intro c₁ hupcoming₁ hpast₁
  have hlength := c₁.upcoming_length_lt
  have hrun := htail levels c₁.turns [tree] c₁ (closing :: rest) (by omega) hclosing
    hupcoming₁ (by omega)
  rw [hpast₁] at hrun
  simp only [cursor_bind]
  apply yields_bind hrun
  intro c₂ hupcoming₂ hpast₂
  apply yields_expect hupcoming₂ rfl
  intro _ hbehind
  exact yields_done hbehind (by simpa using hpast₂)

variable {key value : Node} {entries : List (Node × Node)} {ks vs : List Token}

/-- A pair and the pairs behind it, in a hash that goes on or is over. -/
theorem complete_pairs {colon : Token} (hcolon : colon.kind = .symbol .colon)
    (hkey : Complete (.expr .or key) ks) (hvalue : Complete (.expr .or value) vs)
    (htail : Complete (.pairsTail entries) us) :
    CompletePairs ((key, value) :: entries) (ks ++ colon :: (vs ++ us)) := by
  intro levels fuel read c rest hlevels hrest hupcoming hfuel
  obtain ⟨fuel, rfl⟩ : ∃ k, fuel = k + 1 := ⟨fuel - 1, by omega⟩
  simp only [List.length_append, List.length_cons] at hlevels
  rw [List.append_assoc, List.cons_append, List.append_assoc] at hupcoming
  have hcolonStop : Stopped 1 (colon :: (vs ++ (us ++ rest))) :=
    stopped_of_kind hcolon (by decide) (by simp)
  have hvalueStop : Stopped 1 (us ++ rest) := by
    apply stopped_tail
    · rcases htail with ⟨-, rfl⟩ | ⟨comma, vs, rfl, hcomma, -⟩
      · exact .inl rfl
      · exact .inr hcomma
    · exact stopped_of_kind hrest (by decide) (by simp)
  simp only [hashPairs, advance_bind]
  apply yields_bind
    (hkey.lowest (by omega) (by simp) (by rwa [standing_advance]) hcolonStop)
  intro c₁ hupcoming₁ hpast₁
  apply yields_expect hupcoming₁ hcolon
  intro _ hbehind
  simp only [advance_bind]
  apply yields_bind (hvalue.lowest (by omega) (by simpa using hpast₁)
    (by rwa [standing_advance]) hvalueStop)
  intro c₂ hupcoming₂ hpast₂
  have hkind := nextKind_upcoming c₂
  rw [hupcoming₂] at hkind
  simp only [aheadIs_bind, ite_run, advance_bind, pure_run, decide_eq_true_eq]
  rcases htail with ⟨rfl, rfl⟩ | ⟨comma, us, rfl, hcomma, hpairs⟩
  · have hend : c₂.ahead.kind ≠ .symbol .comma := by
      rw [← hkind, List.nil_append, hrest]
      simp
    rw [if_neg hend, List.reverse_cons]
    exact yields_done hupcoming₂ hpast₂
  · rw [List.cons_append] at hupcoming₂
    obtain ⟨hahead, hbehind₂⟩ := upcoming_cons hupcoming₂
    simp only [List.length_cons] at hlevels
    have hlength : c₂.advance.upcoming.length < fuel := by
      rw [hupcoming] at hfuel
      rw [hbehind₂]
      simp only [List.length_append, List.length_cons] at hfuel ⊢
      omega
    have hrun := hpairs levels fuel ((key, value) :: read) c₂.advance rest (by omega) hrest
      hbehind₂ hlength
    rw [advance_diagnostics, hpast₂] at hrun
    rw [hahead, if_pos hcomma]
    simpa using hrun

variable {names : List Ident}

theorem complete_namesEnd : Complete (.namesTail []) [] := by
  intro fuel read c rest hrest hupcoming hfuel
  obtain ⟨fuel, rfl⟩ : ∃ k, fuel = k + 1 := ⟨fuel - 1, by omega⟩
  have hkind := nextKind_upcoming c
  rw [hupcoming, List.nil_append, hrest] at hkind
  simp only [moreParameters, aheadIs_bind, ite_run, pure_run, decide_eq_true_eq]
  rw [if_neg (by simp [← hkind]), List.append_nil]
  exact yields_done hupcoming rfl

theorem complete_namesNext {comma t : Token} (hcomma : comma.kind = .symbol .comma)
    (hkind : t.kind = .ident) (htail : Complete (.namesTail names) us) :
    Complete (.namesTail (⟨t, t.value⟩ :: names)) (comma :: t :: us) := by
  intro fuel read c rest hrest hupcoming hfuel
  obtain ⟨fuel, rfl⟩ : ∃ k, fuel = k + 1 := ⟨fuel - 1, by omega⟩
  rw [List.cons_append, List.cons_append] at hupcoming
  obtain ⟨hahead, hbehind⟩ := upcoming_cons hupcoming
  obtain ⟨hname, hbehind'⟩ := upcoming_cons hbehind
  have hlength : c.advance.advance.upcoming.length < fuel := by
    rw [hupcoming] at hfuel
    rw [hbehind']
    simp only [List.length_cons] at hfuel
    omega
  have hrun := htail fuel (⟨t, t.value⟩ :: read) c.advance.advance rest hrest hbehind' hlength
  rw [advance_diagnostics, advance_diagnostics] at hrun
  simp only [moreParameters, aheadIs_bind, ite_run, advance_bind, decide_eq_true_eq,
    identAhead_bind]
  rw [hahead, if_pos hcomma, hname, if_pos hkind]
  simpa using hrun

theorem complete_noNames : Complete (.names []) [] := by
  intro c closing rest hclosing hupcoming
  obtain ⟨hahead, hbehind⟩ := upcoming_cons hupcoming
  simp only [parameters, aheadIs_bind, ite_run, advance_bind, pure_run, decide_eq_true_eq]
  rw [hahead, if_pos hclosing]
  exact yields_done hbehind (by simp)

theorem complete_names {t : Token} (hkind : t.kind = .ident)
    (htail : Complete (.namesTail names) us) :
    Complete (.names (⟨t, t.value⟩ :: names)) (t :: us) := by
  intro c closing rest hclosing hupcoming
  obtain ⟨hahead, hbehind⟩ := upcoming_cons hupcoming
  have hlength := c.advance.upcoming_length_lt
  have hrun := htail c.advance.turns [⟨t, t.value⟩] c.advance (closing :: rest) hclosing
    hbehind (by omega)
  rw [advance_diagnostics] at hrun
  simp only [parameters, aheadIs_bind, ite_run, decide_eq_true_eq, identAhead_bind,
    cursor_bind]
  rw [hahead, if_neg (by simp [hkind]), if_pos hkind]
  apply yields_bind hrun
  intro c₁ hupcoming₁ hpast₁
  apply yields_expect hupcoming₁ hclosing
  intro _ hbehind₁
  exact yields_done hbehind₁ (by simpa using hpast₁)

/-- A statement that was right starts with a token of a statement and takes at
least that one. -/
theorem statement_takes {c' : Cursor} (h : statement (expression levels) c = .done tree c')
    (hclean : c'.diagnostics = c.diagnostics) :
    c.current.kind ≠ .finish ∧ c.current.kind ≠ .symbol .rightBrace ∧
      c'.upcoming.length < c.standing.length := by
  have hsound := statement_sound (expression_sound levels) c
  rw [h] at hsound
  obtain ⟨read, htokens, hspelled⟩ := hsound.2 hclean
  obtain ⟨ts, us, hread, hderives⟩ : ∃ ts us, read = ts ++ us ∧
      Derives (.statement tree) ts := by
    rcases hspelled with ⟨ts, semicolon, -, rfl, hderives⟩ | ⟨hderives, -⟩
    · exact ⟨ts, _, rfl, hderives⟩
    · exact ⟨read, [], by simp, hderives⟩
  rw [hread, List.append_assoc] at htokens
  cases ts with
  | nil => exact absurd hderives.starts (by simp [Derives.Starts, nextKind, Kind.begins])
  | cons t ts =>
      obtain ⟨hcurrent, -⟩ := standing_cons htokens
      have hstarts : t.kind.begins = true ∨ t.kind = .keyword .letWord ∨
        t.kind = .keyword .returnWord := hderives.starts
      rw [hcurrent, htokens]
      refine ⟨?_, ?_, ?_⟩
      · intro hkind
        simp [hkind, Kind.begins] at hstarts
      · intro hkind
        simp [hkind, Kind.begins] at hstarts
      · simp only [List.cons_append, List.length_cons, List.length_append]
        omega

theorem recovering_of_statement {depth : Int} {c' : Cursor}
    (h : statement nested c = .done tree c') (hclean : c'.diagnostics = c.diagnostics) :
    recovering depth (statement nested) c = .done (some tree) c' := by
  simp [recovering, h, hclean]

/-- The loop of a block over statements that are right. -/
theorem Reads.blockStatements {depth : Nat} {c' : Cursor} {fuel : Nat}
    (h : Reads (expression levels) c trees c') (read : List Node) (hbefore : c.Before depth)
    (hend : c'.current.kind = .symbol .rightBrace) (hdepth : 0 < depth)
    (hfuel : c.standing.length < fuel) :
    Parse.blockStatements (expression levels) depth fuel read c =
      .done (read.reverse ++ trees) c' := by
  induction h generalizing fuel read with
  | none c =>
      obtain ⟨fuel, rfl⟩ : ∃ k, fuel = k + 1 := ⟨fuel - 1, by omega⟩
      have hclosed := hbefore.depth_eq hend
      have hlow : c.depth < depth := by
        simp only [depthAfter] at hclosed
        omega
      simp only [Parse.blockStatements, cursor_bind, ite_run, pure_run]
      rw [if_pos hlow, List.append_nil]
  | @next c c₁ c₂ tree trees hstatement hclean _ ih =>
      obtain ⟨fuel, rfl⟩ : ∃ k, fuel = k + 1 := ⟨fuel - 1, by omega⟩
      obtain ⟨hfinish, hbrace, hlength⟩ := statement_takes hstatement hclean
      have hwithin := hbefore.within (Nat.le_refl depth)
      have hopen : ¬ c.depth < depth :=
        Nat.not_lt.mpr (hwithin.resolve_right fun h => hbrace h.2)
      have hafter := statement_braced (expression_braced levels) hbefore
      rw [hstatement, Braced, done_meets] at hafter
      have hbefore₁ : c₁.advance.Before depth := hafter ▸ c₁.before_advance
      simp only [Parse.blockStatements, cursor_bind, ite_run]
      rw [if_neg hopen, if_neg hfinish,
        bind_done (recovering_of_statement hstatement hclean)]
      simp only [cursor_bind, ite_run, advance_bind]
      rw [if_pos (Nat.le_of_eq hafter.symm),
        ih _ hbefore₁ hend (by rw [standing_advance]; omega)]
      simp

theorem Reads.programStatements {c' : Cursor} {fuel : Nat}
    (h : Reads (expression levels) c trees c') (read : List Node) (hend : c'.current.kind = .finish)
    (hfuel : c.standing.length < fuel) :
    Parse.programStatements (expression levels) fuel read c =
      .done (read.reverse ++ trees) c' := by
  induction h generalizing fuel read with
  | none c =>
      obtain ⟨fuel, rfl⟩ : ∃ k, fuel = k + 1 := ⟨fuel - 1, by omega⟩
      simp only [Parse.programStatements, current_bind, ite_run, pure_run]
      rw [if_pos hend, List.append_nil]
  | @next c c₁ c₂ tree trees hstatement hclean _ ih =>
      obtain ⟨fuel, rfl⟩ : ∃ k, fuel = k + 1 := ⟨fuel - 1, by omega⟩
      obtain ⟨hfinish, -, hlength⟩ := statement_takes hstatement hclean
      simp only [Parse.programStatements, current_bind, ite_run]
      rw [if_neg hfinish, bind_done (recovering_of_statement hstatement hclean)]
      simp only [advance_bind]
      rw [ih _ hend (by rw [standing_advance]; omega)]
      simp

theorem complete_block {opening closing : Token}
    (hopening : opening.kind = .symbol .leftBrace)
    (hclosing : closing.kind = .symbol .rightBrace)
    (h : Complete (.statements trees) ts) :
    Complete (.block (.block opening trees)) (opening :: (ts ++ [closing])) := by
  intro levels c rest hlevels hupcoming
  simp only [List.length_cons, List.length_append, List.length_nil] at hlevels
  rw [List.cons_append, List.append_assoc, List.singleton_append] at hupcoming
  apply yields_expect hupcoming hopening
  intro hcurrent hbehind
  obtain ⟨c', hreads, hstanding, hpast⟩ := h levels c.advance.advance (closing :: rest)
    (by omega) (.inl hclosing) (by rw [standing_advance, hbehind])
  obtain ⟨hcurrent', hrest⟩ := standing_cons hstanding
  have hkind : c.advance.current.kind = .symbol .leftBrace := by rw [hcurrent, hopening]
  have hdepth : 0 < c.advance.depth := by
    rw [c.before_advance.depth_eq hkind, depthAfter]
    omega
  have hrun := hreads.blockStatements [] c.advance.before_advance
    (by rw [hcurrent', hclosing]) hdepth c.advance.advance.standing_length_lt
  simp only [block, cursor_bind, advance_bind]
  rw [bind_done hrun, hcurrent]
  exact yields_done hrest (by simpa using hpast)

theorem complete_noStatements : Complete (.statements []) [] := by
  intro levels c rest _ _ hstanding
  exact ⟨c, .none c, hstanding, rfl⟩

/-- A statement with its semicolon, before the statements that follow. -/
theorem complete_statements {following : List Token}
    (hfirst : Complete (.statement tree) ts) (hrest : Complete (.statements trees) us)
    (hfollowing : ∀ rest, (nextKind rest = .symbol .rightBrace ∨ rest = []) →
      (tree.Stops (nextKind (following ++ rest)) ∨
        nextKind (following ++ rest) = .symbol .semicolon) ∧
      nextKind (following ++ rest) ≠ .keyword .elseWord ∧
      pastSemicolon (following ++ rest) = us ++ rest)
    (hlength : us.length ≤ following.length) :
    Complete (.statements (tree :: trees)) (ts ++ following) := by
  intro levels c rest hlevels hend hstanding
  rw [List.length_append] at hlevels
  rw [List.append_assoc] at hstanding
  obtain ⟨hstops, helse, hpassed⟩ := hfollowing rest hend
  obtain ⟨c₁, hdone, hupcoming, hpast⟩ :=
    hfirst levels c _ (by omega) hstops helse hstanding
  rw [hpassed] at hupcoming
  obtain ⟨c₂, hreads, hstanding₂, hpast₂⟩ := hrest levels c₁.advance rest (by omega) hend
    (by rw [standing_advance, hupcoming])
  refine ⟨c₂, .next hdone hpast hreads, hstanding₂, ?_⟩
  rw [hpast₂, advance_diagnostics, hpast]

theorem complete_terminated {semicolon : Token}
    (hsemicolon : semicolon.kind = .symbol .semicolon)
    (hfirst : Complete (.statement tree) ts) (hrest : Complete (.statements trees) us) :
    Complete (.statements (tree :: trees)) (ts ++ semicolon :: us) := by
  apply complete_statements hfirst hrest
  · intro rest _
    have hnext : nextKind (semicolon :: us ++ rest) = .symbol .semicolon := hsemicolon
    refine ⟨.inr hnext, by rw [hnext]; simp, ?_⟩
    rw [pastSemicolon, if_pos hnext]
    rfl
  · exact Nat.le_succ us.length

/-- What the grammar lets stand behind a statement stops the parser there. -/
theorem stops_of_mayPrecede (hfollow : tree.MayPrecede us)
    (hderives : Derives (.statements trees) us)
    (hend : nextKind rest = .symbol .rightBrace ∨ rest = []) :
    tree.Stops (nextKind (us ++ rest)) ∧ nextKind (us ++ rest) ≠ .keyword .elseWord ∧
      nextKind (us ++ rest) ≠ .symbol .semicolon := by
  cases us with
  | nil =>
      have hkind : nextKind rest = .symbol .rightBrace ∨ nextKind rest = .finish := by
        rcases hend with hend | rfl
        · exact .inl hend
        · exact .inr rfl
      rw [List.nil_append]
      refine ⟨?_, ?_, ?_⟩
      · unfold Node.Stops
        split
        · exact hkind
        · rw [← Kind.continues_iff_extends]
          rcases hkind with hkind | hkind <;> simp [hkind, continues]
      · rcases hkind with hkind | hkind <;> simp [hkind]
      · rcases hkind with hkind | hkind <;> simp [hkind]
  | cons t us =>
      have hstarts : t.kind.begins = true ∨ t.kind = .keyword .letWord ∨
          t.kind = .keyword .returnWord := by
        cases trees with
        | nil => cases hderives
        | cons tree trees => exact hderives.starts
      rw [List.cons_append, nextKind]
      refine ⟨?_, ?_, ?_⟩
      · unfold Node.MayPrecede at hfollow
        unfold Node.Stops
        split
        · cases hfollow
        next hbare =>
          split at hfollow
          · exact absurd rfl (hbare _)
          · exact hfollow t rfl
      · intro hkind
        simp [hkind, Kind.begins] at hstarts
      · intro hkind
        simp [hkind, Kind.begins] at hstarts

theorem complete_unterminated (hfollow : tree.MayPrecede us)
    (hderives : Derives (.statements trees) us) (hfirst : Complete (.statement tree) ts)
    (hrest : Complete (.statements trees) us) :
    Complete (.statements (tree :: trees)) (ts ++ us) := by
  apply complete_statements hfirst hrest
  · intro rest hend
    obtain ⟨hstops, helse, hsemicolon⟩ := stops_of_mayPrecede hfollow hderives hend
    exact ⟨.inl hstops, helse, if_neg hsemicolon⟩
  · exact Nat.le_refl _

/-- The value at the end of a statement. -/
theorem value_yields {make : Node → Node} (h : Complete (.expr .or value) ts)
    (hlevels : ts.length < levels) (hpast : c.diagnostics = past)
    (hstops : ¬ (nextKind rest).Extends ∨ nextKind rest = .symbol .semicolon)
    (helse : nextKind rest ≠ .keyword .elseWord) (hstanding : c.standing = ts ++ rest) :
    Yields past (make value) (pastSemicolon rest)
      ((do
        let value ← expression levels Parse.lowest
        skipIf (.symbol .semicolon)
        return make value : Parse Node) c) := by
  have hstop : Stopped 1 rest := by
    refine ⟨?_, helse⟩
    rcases hstops with hextends | hsemicolon
    · rw [← Kind.continues_iff_extends, Kind.continues_iff_strength] at hextends
      omega
    · rw [hsemicolon]
      decide
  apply yields_bind (h.lowest hlevels hpast hstanding hstop)
  intro c₁ hupcoming hpast₁
  exact yields_skipIf hupcoming hpast₁

theorem complete_binding {t name assign : Token} (hkind : t.kind = .keyword .letWord)
    (hname : name.kind = .ident) (hassign : assign.kind = .symbol .assign)
    (h : Complete (.expr .or value) ts) :
    Complete (.statement (.binding t ⟨name, name.value⟩ value))
      (t :: name :: assign :: ts) := by
  intro levels c rest hlevels hstops helse hstanding
  simp only [List.length_cons] at hlevels
  simp only [List.cons_append] at hstanding
  obtain ⟨hcurrent, hupcoming⟩ := standing_cons hstanding
  obtain ⟨hahead, hbehind⟩ := upcoming_cons hupcoming
  rw [statement_run, hcurrent, hkind]
  simp only [bindingStatement, current_bind, identAhead_bind, hahead, hname, if_true,
    hcurrent]
  apply yields_expect hbehind hassign
  intro _ hbehind'
  simp only [advance_bind]
  exact value_yields h (by omega) (by simp) hstops helse (by rwa [standing_advance])

theorem complete_bareReturn {t : Token} (hkind : t.kind = .keyword .returnWord) :
    Complete (.statement (.ret t none)) [t] := by
  intro levels c rest _ hstops _ hstanding
  rw [List.singleton_append] at hstanding
  obtain ⟨hcurrent, hupcoming⟩ := standing_cons hstanding
  have hnext := nextKind_upcoming c
  rw [hupcoming] at hnext
  rw [hnext] at hstops
  rw [statement_run, hcurrent, hkind]
  simp only [returnStatement, current_bind, cursor_bind, ite_run]
  rw [if_pos, hcurrent]
  · exact yields_skipIf hupcoming rfl
  · rcases hstops with (hstops | hstops) | hstops <;> simp [hstops]

theorem complete_ret {t : Token} (hkind : t.kind = .keyword .returnWord)
    (hderives : Derives (.expr .or value) ts) (h : Complete (.expr .or value) ts) :
    Complete (.statement (.ret t (some value))) (t :: ts) := by
  intro levels c rest hlevels hstops helse hstanding
  rw [List.length_cons] at hlevels
  rw [List.cons_append] at hstanding
  obtain ⟨hcurrent, hupcoming⟩ := standing_cons hstanding
  have hbegins := begins_ahead hderives hupcoming
  have hvalue : [Kind.symbol .semicolon, .symbol .rightBrace, .finish].contains
      c.ahead.kind = false := by
    revert hbegins
    generalize c.ahead.kind = kind
    intro hbegins
    by_cases hmember : kind ∈ [Kind.symbol .semicolon, .symbol .rightBrace, .finish]
    · simp only [List.mem_cons, List.not_mem_nil, or_false] at hmember
      rcases hmember with rfl | rfl | rfl <;> cases hbegins
    · simpa using hmember
  rw [statement_run, hcurrent, hkind]
  simp only [returnStatement, current_bind, cursor_bind, ite_run, advance_bind]
  rw [if_neg (by simpa using hvalue), hcurrent]
  exact value_yields h (by omega) (by simp) hstops helse (by rwa [standing_advance])

theorem complete_expression {first : Token} (hderives : Derives (.expr .or value) (first :: ts))
    (h : Complete (.expr .or value) (first :: ts)) :
    Complete (.statement (.expression first value)) (first :: ts) := by
  intro levels c rest hlevels hstops helse hstanding
  obtain ⟨hcurrent, -⟩ := standing_cons hstanding
  have hbegins : first.kind.begins = true := hderives.starts
  have hrule : statement (expression levels) c = expressionStatement (expression levels) c := by
    rw [statement_run, hcurrent]
    split
    next hkind => simp [hkind, Kind.begins] at hbegins
    next hkind => simp [hkind, Kind.begins] at hbegins
    next => rfl
  rw [hrule]
  simp only [expressionStatement, current_bind, hcurrent]
  exact value_yields h hlevels rfl hstops helse hstanding

theorem complete_tighter (hlevel : level ≠ .suffix)
    (h : Complete (.expr level.tighter tree) ts) : Complete (.expr level tree) ts := by
  have htighter := Level.strength_tighter hlevel
  intro levels strength c rest hlevels hmost hstrength hstanding hstop
  exact h levels strength c rest hlevels hmost (by omega) hstanding
    (hstop.mono (by omega))

/-- The left operand is reached with the operator before it, and the right one is
read up to the next operator that is not stronger. -/
theorem complete_binary {t : Token} {left right : Node} {ls rs : List Token}
    (hop : level.joins t.kind = true) (hleft : Complete (.expr level left) ls)
    (hright : Complete (.expr level.tighter right) rs) :
    Complete (.expr level (.binary t left t.value right)) (ls ++ t :: rs) := by
  obtain ⟨hkind, hmost₇, hcontinues, hparen, hbracket⟩ := Level.strength_of_joins hop
  have htighter : level.tighter.strength = level.strength + 1 := by
    apply Level.strength_tighter
    rintro rfl
    exact absurd hmost₇ (by decide)
  intro levels strength c rest hlevels hmost hstrength hstanding hstop
  simp only [List.length_append, List.length_cons] at hlevels
  rw [List.append_assoc, List.cons_append] at hstanding
  have helse : t.kind ≠ .keyword .elseWord := by
    intro heq
    rw [heq] at hcontinues
    cases hcontinues
  have hreaches := hleft levels strength c (t :: (rs ++ rest)) (by omega) hmost hstrength
    hstanding ⟨Int.le_of_eq hkind, helse⟩
  apply hreaches.extend hcontinues (by omega) (by simp)
  intro c₁ hcurrent hupcoming hpast
  rw [continuation_run, hcurrent]
  split
  next heq => exact absurd heq hparen
  next heq => exact absurd heq hbracket
  next =>
    simp only [infixRest, current_bind, advance_bind, hcurrent]
    rw [hkind]
    apply yields_bind (hright.yields (by omega) (by omega) (.inl (by omega))
      (by simpa using hpast) (by rwa [standing_advance]) hstop)
    intro c₂ hupcoming₂ hpast₂
    exact yields_done hupcoming₂ hpast₂

theorem complete_call {opening closing : Token} {callee : Node} {cs : List Token}
    (hopening : opening.kind = .symbol .leftParen)
    (hclosing : closing.kind = .symbol .rightParen)
    (hcallee : Complete (.expr .suffix callee) cs) (h : Complete (.items trees) ts) :
    Complete (.expr .suffix (.call opening callee trees))
      (cs ++ opening :: (ts ++ [closing])) := by
  intro levels strength c rest hlevels hmost hstrength hstanding hstop
  simp only [List.length_append, List.length_cons, List.length_nil] at hlevels
  simp only [List.append_assoc, List.cons_append, List.nil_append] at hstanding
  have hreaches := hcallee levels strength c (opening :: (ts ++ closing :: rest)) (by omega)
    hmost hstrength hstanding (stopped_of_kind hopening (by decide) (by simp))
  have hstrong : opening.kind.strength = 9 := by rw [hopening]; rfl
  apply hreaches.extend (by rw [hopening]; rfl) (by omega)
    (by simp only [List.length_append, List.length_cons]; omega)
  intro c₁ hcurrent hupcoming hpast
  have hrun := h levels c₁ closing rest (by omega) (.inl hclosing) hupcoming
  rw [hpast, hclosing] at hrun
  rw [continuation_run, hcurrent, hopening]
  simp only [callRest, current_bind, hcurrent]
  apply yields_bind hrun
  intro c₂ hupcoming₂ hpast₂
  exact yields_done hupcoming₂ hpast₂

theorem complete_index {opening closing : Token} {collection place : Node}
    {cs : List Token} (hopening : opening.kind = .symbol .leftBracket)
    (hclosing : closing.kind = .symbol .rightBracket)
    (hcollection : Complete (.expr .suffix collection) cs)
    (h : Complete (.expr .or place) ts) :
    Complete (.expr .suffix (.index opening collection place))
      (cs ++ opening :: (ts ++ [closing])) := by
  intro levels strength c rest hlevels hmost hstrength hstanding hstop
  simp only [List.length_append, List.length_cons, List.length_nil] at hlevels
  simp only [List.append_assoc, List.cons_append, List.nil_append] at hstanding
  have hreaches := hcollection levels strength c (opening :: (ts ++ closing :: rest))
    (by omega) hmost hstrength hstanding (stopped_of_kind hopening (by decide) (by simp))
  have hstrong : opening.kind.strength = 9 := by rw [hopening]; rfl
  apply hreaches.extend (by rw [hopening]; rfl) (by omega)
    (by simp only [List.length_append, List.length_cons]; omega)
  intro c₁ hcurrent hupcoming hpast
  have hclose : Stopped 1 (closing :: rest) :=
    stopped_of_kind hclosing (by decide) (by simp)
  rw [continuation_run, hcurrent, hopening]
  simp only [indexRest, current_bind, advance_bind, hcurrent]
  apply yields_bind (h.lowest (by omega) (by simpa using hpast)
    (by rwa [standing_advance]) hclose)
  intro c₂ hupcoming₂ hpast₂
  apply yields_expect hupcoming₂ hclosing
  intro _ hbehind
  exact yields_done hbehind (by simpa using hpast₂)

/-- A phrase that is read as an operand. -/
theorem complete_operand
    (h : ∀ levels (c : Cursor) rest, ts.length ≤ levels → c.standing = ts ++ rest →
      Stopped level.strength rest →
      Yields c.diagnostics tree rest (operand (expression levels) c)) :
    Complete (.expr level tree) ts := by
  intro levels strength c rest hlevels _ _ hstanding hstop
  exact reaches_of_operand (h levels c rest hlevels hstanding hstop)

/-- An operand of a single token. -/
theorem complete_token {t : Token}
    (h : ∀ levels (c : Cursor), c.current = t →
      operand (expression levels) c = .done tree c) :
    Complete (.expr .suffix tree) [t] := by
  apply complete_operand
  intro levels c rest _ hstanding _
  obtain ⟨hcurrent, hupcoming⟩ := standing_cons hstanding
  rw [h levels c hcurrent]
  exact yields_done hupcoming rfl

theorem complete_unary {t : Token} {operand : Node} (hsign : t.kind.isSign = true)
    (h : Complete (.expr .unary operand) ts) :
    Complete (.expr .unary (.unary t t.value operand)) (t :: ts) := by
  apply complete_operand
  intro levels c rest hlevels hstanding hstop
  rw [List.length_cons] at hlevels
  rw [List.cons_append] at hstanding
  obtain ⟨hcurrent, hupcoming⟩ := standing_cons hstanding
  have hrule : Parse.operand (expression levels) c = unary (expression levels) c := by
    rw [operand_run, hcurrent]
    unfold Kind.isSign at hsign
    split at hsign
    next heq => rw [heq]
    next heq => rw [heq]
    next heq => rw [heq]
    next => cases hsign
  rw [hrule]
  simp only [unary, current_bind, advance_bind, hcurrent]
  apply yields_bind (h.yields (by omega) (by decide) (.inr (by decide)) (by simp)
    (by rwa [standing_advance]) hstop)
  intro c₁ hupcoming₁ hpast₁
  exact yields_done hupcoming₁ hpast₁

theorem complete_grouped {opening closing : Token}
    (hopening : opening.kind = .symbol .leftParen)
    (hclosing : closing.kind = .symbol .rightParen) (h : Complete (.expr .or tree) ts) :
    Complete (.expr .suffix tree) (opening :: (ts ++ [closing])) := by
  apply complete_operand
  intro levels c rest hlevels hstanding _
  simp only [List.length_append, List.length_cons, List.length_nil] at hlevels
  simp only [List.append_assoc, List.cons_append, List.nil_append] at hstanding
  obtain ⟨hcurrent, hupcoming⟩ := standing_cons hstanding
  have hclose : Stopped 1 (closing :: rest) :=
    stopped_of_kind hclosing (by decide) (by simp)
  rw [operand_run, hcurrent, hopening]
  simp only [grouped, advance_bind]
  apply yields_bind (h.lowest (by omega) (by simp) (by rwa [standing_advance]) hclose)
  intro c₁ hupcoming₁ hpast₁
  apply yields_expect hupcoming₁ hclosing
  intro _ hbehind
  exact yields_done hbehind (by simpa using hpast₁)

theorem complete_array {t closing : Token} (hkind : t.kind = .symbol .leftBracket)
    (hclosing : closing.kind = .symbol .rightBracket) (h : Complete (.items trees) ts) :
    Complete (.expr .suffix (.array t trees)) (t :: (ts ++ [closing])) := by
  apply complete_operand
  intro levels c rest hlevels hstanding _
  simp only [List.length_append, List.length_cons, List.length_nil] at hlevels
  simp only [List.append_assoc, List.cons_append, List.nil_append] at hstanding
  obtain ⟨hcurrent, hupcoming⟩ := standing_cons hstanding
  have hrun := h levels c closing rest (by omega) (.inr hclosing) hupcoming
  rw [hclosing] at hrun
  rw [operand_run, hcurrent, hkind]
  simp only [arrayLiteral, current_bind, hcurrent]
  apply yields_bind hrun
  intro c₁ hupcoming₁ hpast₁
  exact yields_done hupcoming₁ hpast₁

theorem complete_hash {t closing : Token} (hkind : t.kind = .symbol .leftBrace)
    (hclosing : closing.kind = .symbol .rightBrace)
    (hderives : Derives (.pairs entries) ts) (h : Complete (.pairs entries) ts) :
    Complete (.expr .suffix (.hash t entries)) (t :: (ts ++ [closing])) := by
  apply complete_operand
  intro levels c rest hlevels hstanding _
  simp only [List.length_append, List.length_cons, List.length_nil] at hlevels
  simp only [List.append_assoc, List.cons_append, List.nil_append] at hstanding
  obtain ⟨hcurrent, hupcoming⟩ := standing_cons hstanding
  have hnext := nextKind_upcoming c
  rw [hupcoming] at hnext
  rw [operand_run, hcurrent, hkind]
  simp only [hashLiteral, current_bind, aheadIs_bind, ite_run, advance_bind, pure_run,
    cursor_bind, decide_eq_true_eq, hcurrent]
  cases entries with
  | nil =>
      cases hderives
      rw [List.nil_append] at hupcoming
      obtain ⟨hahead, hbehind⟩ := upcoming_cons hupcoming
      rw [hahead, if_pos hclosing]
      exact yields_done hbehind (by simp)
  | cons entry entries =>
      have hbegins : (nextKind ts).begins = true := hderives.starts
      have hopen : c.ahead.kind ≠ .symbol .rightBrace := by
        rw [← hnext]
        intro heq
        have hlonger := Derives.begins_append hbegins (closing :: rest)
        rw [heq] at hlonger
        cases hlonger
      have hlength := c.upcoming_length_lt
      have hrun := h (by simp) levels c.turns [] c (closing :: rest) (by omega) hclosing
        hupcoming (by omega)
      rw [if_neg hopen]
      apply yields_bind hrun
      intro c₁ hupcoming₁ hpast₁
      apply yields_expect hupcoming₁ hclosing
      intro _ hbehind
      exact yields_done hbehind (by simpa using hpast₁)

variable {condition consequence alternative : Node} {cs bs as : List Token}

/-- A condition with its first block, before the rest of the rule. -/
theorem conditional_yields {t opening closing : Token} {rest' : List Token}
    (hkind : t.kind = .keyword .ifWord) (hopening : opening.kind = .symbol .leftParen)
    (hclosing : closing.kind = .symbol .rightParen)
    (hcondition : Complete (.expr .or condition) cs)
    (hconsequence : Complete (.block consequence) bs)
    (hlevels : cs.length + bs.length < levels)
    (hstanding : c.standing = t :: opening :: (cs ++ closing :: (bs ++ rest')))
    (hnext : ∀ c₁ : Cursor, c₁.upcoming = rest' → c₁.diagnostics = c.diagnostics →
      Yields c.diagnostics tree rest
        ((do
          if ← aheadIs (.keyword .elseWord) then
            advance
            let alternative ← blockAhead (expression levels)
            return .conditional t condition consequence (some alternative)
          else
            return .conditional t condition consequence none : Parse Node) c₁)) :
    Yields c.diagnostics tree rest (operand (expression levels) c) := by
  obtain ⟨hcurrent, hupcoming⟩ := standing_cons hstanding
  have hclose : Stopped 1 (closing :: (bs ++ rest')) :=
    stopped_of_kind hclosing (by decide) (by simp)
  rw [operand_run, hcurrent, hkind]
  simp only [conditional, current_bind, hcurrent]
  apply yields_expect hupcoming hopening
  intro _ hbehind
  simp only [advance_bind]
  apply yields_bind (hcondition.lowest (by omega) (by simp)
    (by rwa [standing_advance]) hclose)
  intro c₁ hupcoming₁ hpast₁
  apply yields_expect hupcoming₁ hclosing
  intro _ hbehind₁
  have hrun := hconsequence levels c₁.advance rest' (by omega) hbehind₁
  rw [advance_diagnostics, hpast₁] at hrun
  apply yields_bind hrun
  intro c₂ hupcoming₂ hpast₂
  exact hnext c₂ hupcoming₂ hpast₂

theorem complete_conditional {t opening closing : Token}
    (hkind : t.kind = .keyword .ifWord) (hopening : opening.kind = .symbol .leftParen)
    (hclosing : closing.kind = .symbol .rightParen)
    (hcondition : Complete (.expr .or condition) cs)
    (hconsequence : Complete (.block consequence) bs) :
    Complete (.expr .suffix (.conditional t condition consequence none))
      (t :: opening :: (cs ++ closing :: bs)) := by
  apply complete_operand
  intro levels c rest hlevels hstanding hstop
  simp only [List.length_append, List.length_cons] at hlevels
  simp only [List.append_assoc, List.cons_append] at hstanding
  apply conditional_yields hkind hopening hclosing hcondition hconsequence (by omega)
    hstanding
  intro c₁ hupcoming hpast
  have hnext := nextKind_upcoming c₁
  rw [hupcoming] at hnext
  simp only [aheadIs_bind, ite_run, pure_run, decide_eq_true_eq]
  rw [if_neg (hnext ▸ hstop.2)]
  exact yields_done hupcoming hpast

theorem complete_alternative {t opening closing other : Token}
    (hkind : t.kind = .keyword .ifWord) (hopening : opening.kind = .symbol .leftParen)
    (hclosing : closing.kind = .symbol .rightParen)
    (hother : other.kind = .keyword .elseWord)
    (hcondition : Complete (.expr .or condition) cs)
    (hconsequence : Complete (.block consequence) bs)
    (halternative : Complete (.block alternative) as) :
    Complete (.expr .suffix (.conditional t condition consequence (some alternative)))
      (t :: opening :: (cs ++ closing :: (bs ++ other :: as))) := by
  apply complete_operand
  intro levels c rest hlevels hstanding _
  simp only [List.length_append, List.length_cons] at hlevels
  simp only [List.append_assoc, List.cons_append] at hstanding
  apply conditional_yields hkind hopening hclosing hcondition hconsequence (by omega)
    hstanding
  intro c₁ hupcoming hpast
  obtain ⟨hahead, hbehind⟩ := upcoming_cons hupcoming
  have hrun := halternative levels c₁.advance rest (by omega) hbehind
  rw [advance_diagnostics, hpast] at hrun
  simp only [aheadIs_bind, ite_run, advance_bind, decide_eq_true_eq]
  rw [hahead, if_pos hother]
  apply yields_bind hrun
  intro c₂ hupcoming₂ hpast₂
  exact yields_done hupcoming₂ hpast₂

theorem complete_function {t opening closing : Token} {body : Node} {ps : List Token}
    (hkind : t.kind = .keyword .fnWord) (hopening : opening.kind = .symbol .leftParen)
    (hclosing : closing.kind = .symbol .rightParen)
    (hparameters : Complete (.names names) ps) (hbody : Complete (.block body) bs) :
    Complete (.expr .suffix (.function t names body))
      (t :: opening :: (ps ++ closing :: bs)) := by
  apply complete_operand
  intro levels c rest hlevels hstanding _
  simp only [List.length_append, List.length_cons] at hlevels
  simp only [List.append_assoc, List.cons_append] at hstanding
  obtain ⟨hcurrent, hupcoming⟩ := standing_cons hstanding
  rw [operand_run, hcurrent, hkind]
  simp only [functionLiteral, current_bind, hcurrent]
  apply yields_expect hupcoming hopening
  intro _ hbehind
  have hnames := hparameters c.advance closing (bs ++ rest) hclosing hbehind
  rw [advance_diagnostics] at hnames
  apply yields_bind hnames
  intro c₁ hupcoming₁ hpast₁
  have hrun := hbody levels c₁ rest (by omega) hupcoming₁
  rw [hpast₁] at hrun
  apply yields_bind hrun
  intro c₂ hupcoming₂ hpast₂
  exact yields_done hupcoming₂ hpast₂

end Parse

/-- Every phrase of the grammar is read by the parser that is responsible for it,
by induction on the derivation. -/
theorem Derives.complete {phrase : Phrase} {ts : List Token} (h : Derives phrase ts) :
    Parse.Complete phrase ts := by
  induction h with
  | tighter hlevel _ ih => exact Parse.complete_tighter hlevel ih
  | binary hop _ _ ihleft ihright => exact Parse.complete_binary hop ihleft ihright
  | unary hsign _ ih => exact Parse.complete_unary hsign ih
  | call hopening hclosing _ _ ihcallee ih =>
      exact Parse.complete_call hopening hclosing ihcallee ih
  | index hopening hclosing _ _ ihcollection ih =>
      exact Parse.complete_index hopening hclosing ihcollection ih
  | @ident t hkind =>
      apply Parse.complete_token
      intro levels c hcurrent
      rw [Parse.operand_run, hcurrent, hkind]
  | @integer t n hkind hvalue hmaximum =>
      apply Parse.complete_token
      intro levels c hcurrent
      rw [Parse.operand_run, hcurrent, hkind]
      simp only [Parse.integerLiteral_run, hcurrent, hvalue]
      exact if_pos hmaximum
  | @text t hkind =>
      apply Parse.complete_token
      intro levels c hcurrent
      rw [Parse.operand_run, hcurrent, hkind]
  | @boolean t b hkind =>
      apply Parse.complete_token
      intro levels c hcurrent
      rw [Parse.operand_run, hcurrent, hkind]
      cases b <;> rfl
  | grouped hopening hclosing _ ih => exact Parse.complete_grouped hopening hclosing ih
  | conditional hkind hopening hclosing _ _ ihcondition ihconsequence =>
      exact Parse.complete_conditional hkind hopening hclosing ihcondition ihconsequence
  | alternative hkind hopening hclosing hother _ _ _ ihcondition ihconsequence
      ihalternative =>
      exact Parse.complete_alternative hkind hopening hclosing hother ihcondition
        ihconsequence ihalternative
  | function hkind hopening hclosing _ _ ihparameters ihbody =>
      exact Parse.complete_function hkind hopening hclosing ihparameters ihbody
  | array hkind hclosing _ ih => exact Parse.complete_array hkind hclosing ih
  | hash hkind hclosing h ih => exact Parse.complete_hash hkind hclosing h ih
  | noItems => exact Parse.complete_noItems
  | items hfirst htail ihfirst ihtail =>
      exact Parse.complete_items hfirst ihfirst (Parse.itemsTail_next htail) ihtail
  | itemsEnd => exact Parse.complete_itemsEnd
  | itemsNext hcomma _ htail ihfirst ihtail =>
      exact Parse.complete_itemsNext hcomma ihfirst (Parse.itemsTail_next htail) ihtail
  | noPairs => exact fun hne => absurd rfl hne
  | pairs hcolon _ _ _ ihkey ihvalue ihtail =>
      exact fun _ => Parse.complete_pairs hcolon ihkey ihvalue ihtail
  | pairsEnd => exact .inl ⟨rfl, rfl⟩
  | pairsNext hcomma hentries _ ih => exact .inr ⟨_, _, rfl, hcomma, ih hentries⟩
  | noNames => exact Parse.complete_noNames
  | names hkind _ ih => exact Parse.complete_names hkind ih
  | namesEnd => exact Parse.complete_namesEnd
  | namesNext hcomma hkind _ ih => exact Parse.complete_namesNext hcomma hkind ih
  | block hopening hclosing _ ih => exact Parse.complete_block hopening hclosing ih
  | binding hkind hname hassign _ ih =>
      exact Parse.complete_binding hkind hname hassign ih
  | ret hkind h ih => exact Parse.complete_ret hkind h ih
  | bareReturn hkind => exact Parse.complete_bareReturn hkind
  | expression h ih => exact Parse.complete_expression h ih
  | noStatements => exact Parse.complete_noStatements
  | terminated hsemicolon _ _ ihfirst ihrest =>
      exact Parse.complete_terminated hsemicolon ihfirst ihrest
  | unterminated _ hfollow hrest ihfirst ihrest =>
      exact Parse.complete_unterminated hfollow hrest ihfirst ihrest

namespace Reading

/-- A derived program is parsed without diagnostics, given more levels than
tokens. -/
theorem ofCursor_of_derives {levels : Nat} {c : Cursor} {trees : List Node}
    (hstart : c.diagnostics = []) (h : Derives (.statements trees) c.standing)
    (hlevels : c.standing.length < levels) :
    ofCursor levels c = .parsed (.program trees) [] := by
  obtain ⟨c', hreads, hstanding, hpast⟩ := h.complete levels c [] hlevels (.inr rfl)
    (by rw [List.append_nil])
  have hend : c'.current.kind = .finish := by
    rw [← Cursor.nextKind_standing, hstanding]
    rfl
  rw [ofCursor_eq, hreads.programStatements [] hend c.standing_length_lt]
  simp [ofStatements, hpast, hstart]

/-- The parser accepts exactly the grammar and builds its trees: for tokens
without an end among them, whatever is parsed without diagnostics is derived, at
any number of levels, and whatever is derived is parsed so, as soon as there are
more levels than tokens. -/
theorem ofTokens_eq_parsed_iff_derives (tokens : List Token) (program : Node)
    (hfinish : ∀ t ∈ tokens, t.kind ≠ .finish) :
    (∀ levels, ofTokens levels tokens = .parsed program [] →
      ∃ trees, program = .program trees ∧ Derives (.statements trees) tokens) ∧
    ∀ levels, tokens.length < levels →
      (ofTokens levels tokens = .parsed program [] ↔
        ∃ trees, program = .program trees ∧ Derives (.statements trees) tokens) := by
  let start : Cursor := .ofTokens tokens
  have hstanding : start.standing = tokens := Cursor.standing_start tokens _ _ hfinish
  have hstart : start.diagnostics = [] := by
    simp [start, Cursor.ofTokens, Cursor.start]
  have hsound (levels : Nat) (h : ofTokens levels tokens = .parsed program []) :
      ∃ trees, program = .program trees ∧ Derives (.statements trees) tokens := by
    rw [← hstanding]
    exact derives_of_ofCursor hstart h
  refine ⟨hsound, ?_⟩
  intro levels hlevels
  refine ⟨hsound levels, ?_⟩
  rintro ⟨trees, rfl, hderives⟩
  rw [← hstanding] at hderives hlevels
  exact ofCursor_of_derives hstart hderives hlevels

/-- Two differences in a row. -/
def differences : List Token :=
  [⟨.ident, "a", 1, 1⟩, ⟨.symbol .minus, "-", 1, 3⟩, ⟨.ident, "b", 1, 5⟩,
    ⟨.symbol .minus, "-", 1, 7⟩, ⟨.ident, "c", 1, 9⟩]

theorem differences_derive_leftmost_first :
    (∀ t ∈ differences, t.kind ≠ .finish) ∧
      ∃ trees, Node.program [.expression ⟨.ident, "a", 1, 1⟩
          (.binary ⟨.symbol .minus, "-", 1, 7⟩
            (.binary ⟨.symbol .minus, "-", 1, 3⟩ (.ident ⟨⟨.ident, "a", 1, 1⟩, "a"⟩) "-"
              (.ident ⟨⟨.ident, "b", 1, 5⟩, "b"⟩)) "-"
            (.ident ⟨⟨.ident, "c", 1, 9⟩, "c"⟩))] = .program trees ∧
        Derives (.statements trees) differences :=
  ⟨by decide, (ofTokens_eq_parsed_iff_derives differences _ (by decide)).1 6 rfl⟩

end Reading

end Scriptlet
