import Scriptlet.Proofs.Grammar.Position
import Scriptlet.Proofs.Parse.Braces

/-!
What the parser builds, the grammar derives. Whenever a rule is done and nothing
was recorded on the way, the tokens it has read spell the tree it gives. An
expression read behind an operator is a phrase of every level down to the one
just tighter than the operator, and the token behind it binds no more strongly,
so the loop over operators always finds a left operand of the right level.
-/

namespace Scriptlet

variable {α β : Type}

/-- The outcome of a parser that started at `base` with `tokens` before it: it
has only moved on and recorded, and unless it recorded something the tokens it
has read spell its value. -/
def Parsed.Sound (base : Cursor) (tokens : List Token)
    (spells : α → Cursor → List Token → Prop) (outcome : Parsed α) : Prop :=
  outcome.Meets
    (fun a c => base.Reach c ∧ (c.diagnostics = base.diagnostics →
      ∃ read, tokens = read ++ c.upcoming ∧ spells a c read))
    (fun _ => True) fun _ => True

/-- A tail call: what was read before it is put in front. -/
theorem Parsed.Sound.after {base c : Cursor} {tokens tokens' : List Token}
    {spells spells' : α → Cursor → List Token → Prop} {outcome : Parsed α}
    (h : outcome.Sound c tokens' spells') (hreach : base.Reach c)
    (hstep : ∀ a c' read, c.diagnostics = base.diagnostics →
      tokens' = read ++ c'.upcoming → spells' a c' read →
      ∃ read', tokens = read' ++ c'.upcoming ∧ spells a c' read') :
    outcome.Sound base tokens spells := by
  refine Meets.mono h ?_ (fun _ h => h) fun _ h => h
  rintro a c' ⟨hreach', hread⟩
  refine ⟨hreach.trans hreach', fun hclean => ?_⟩
  obtain ⟨hbefore, hafter⟩ := hreach.unchanged hreach' hclean
  obtain ⟨read, htokens, hspells⟩ := hread hafter
  exact hstep a c' read hbefore htokens hspells

/-- A tree read behind an operator of a strength. -/
def Spelled (strength : Int) (tree : Node) (c : Cursor) (read : List Token) : Prop :=
  (∀ level : Level, level.strength ≤ strength + 1 → level.strength ≤ 8 →
    Derives (.expr level tree) read) ∧ c.ahead.kind.strength ≤ strength

theorem Spelled.expr {tree : Node} {c : Cursor} {read : List Token}
    (h : Spelled Parse.lowest tree c read) : Derives (.expr .or tree) read :=
  h.1 .or (by decide) (by decide)

/-- What may stand behind a statement that no semicolon ends. -/
def Node.Stops (statement : Node) (kind : Kind) : Prop :=
  match statement with
  | .ret _ none => kind = .symbol .rightBrace ∨ kind = .finish
  | _ => ¬ kind.Extends

/-- Whatever stops a statement also stops the tokens of the next one. -/
theorem Node.mayPrecede_of_stops {tree : Node} {trees : List Node} {ts after : List Token}
    (hstops : tree.Stops (Cursor.nextKind (ts ++ after)))
    (hts : Derives (.statements trees) ts) : tree.MayPrecede ts := by
  cases ts with
  | nil =>
      unfold MayPrecede
      split
      · rfl
      · simp
  | cons t ts =>
      have hstarts : t.kind.begins = true ∨ t.kind = .keyword .letWord ∨
          t.kind = .keyword .returnWord := by
        cases trees with
        | nil => cases hts
        | cons tree trees => exact hts.starts
      unfold MayPrecede
      unfold Stops at hstops
      split at hstops
      · exfalso
        rcases hstops with hkind | hkind <;>
          simp [Cursor.nextKind] at hkind <;> simp [hkind, Kind.begins] at hstarts
      · simpa [Cursor.nextKind] using hstops

/-- A statement read with the semicolon that ends it, if there is one. -/
def SpelledStatement (tree : Node) (c : Cursor) (read : List Token) : Prop :=
  (∃ ts semicolon, semicolon.kind = .symbol .semicolon ∧ read = ts ++ [semicolon] ∧
    Derives (.statement tree) ts) ∨
  Derives (.statement tree) read ∧ tree.Stops c.ahead.kind

namespace Parse

open Parsed

variable {base c : Cursor} {tokens : List Token} {nested : Nested}
variable {spells : α → Cursor → List Token → Prop}

theorem sound_bind {p : Parse β} {next : β → Parse α} {tokens' : List Token}
    {spells' : β → Cursor → List Token → Prop} (hp : Sound c tokens' spells' (p c))
    (hnext : ∀ b c', c.Reach c' → (c'.diagnostics = c.diagnostics →
      ∃ read, tokens' = read ++ c'.upcoming ∧ spells' b c' read) →
      Sound base tokens spells (next b c')) :
    Sound base tokens spells ((p >>= next) c) := by
  unfold Sound
  rw [bind_meets]
  exact Meets.mono hp (fun b c' h => hnext b c' h.1 h.2) (fun _ h => h) fun _ h => h

theorem sound_expect {kind : Kind} {next : Unit → Parse α}
    (hnext : c.ahead.kind = kind → Sound base tokens spells (next () c.advance)) :
    Sound base tokens spells ((expect kind >>= next) c) := by
  unfold Sound
  rw [bind_meets]
  exact expect_meets hnext fun _ => trivial

theorem identAhead_sound (c : Cursor) :
    Sound c c.upcoming (fun name _ read => ∃ t : Token, t.kind = .ident ∧
      name = ⟨t, t.value⟩ ∧ read = [t]) (identAhead c) := by
  refine sound_expect fun hkind => ?_
  refine ⟨.advance .refl, fun _ => ⟨[c.ahead], ?_, c.ahead, hkind, ?_, rfl⟩⟩
  · exact Cursor.upcoming_of_kind hkind (by simp)
  · rw [Cursor.advance_current]

theorem moreParameters_sound (fuel : Nat) (read : List Ident) (c : Cursor) :
    Sound c c.upcoming (fun names _ ts => ∃ trees, names = read.reverse ++ trees ∧
      Derives (.namesTail trees) ts) (moreParameters fuel read c) := by
  induction fuel generalizing read c with
  | zero => trivial
  | succ fuel ih =>
      simp only [moreParameters, aheadIs_bind, ite_run, advance_bind, pure_run,
        decide_eq_true_eq]
      split
      next hcomma =>
        have hupcoming := Cursor.upcoming_of_kind hcomma (by simp)
        refine sound_bind (identAhead_sound c.advance) fun name c₁ hreach hname => ?_
        refine (ih (name :: read) c₁).after (.trans (.advance .refl) hreach) ?_
        rintro names c' ts hclean htokens ⟨trees, rfl, hderives⟩
        obtain ⟨_, htokens₁, t, hkind, rfl, rfl⟩ := hname (by simpa using hclean)
        refine ⟨c.ahead :: t :: ts, ?_, ⟨t, t.value⟩ :: trees, ?_,
          .namesNext hcomma hkind hderives⟩
        · rw [hupcoming, htokens₁, htokens]
          rfl
        · simp
      next => exact ⟨.refl, fun _ => ⟨[], rfl, [], by simp, .namesEnd⟩⟩

theorem parameters_sound (c : Cursor) :
    Sound c c.upcoming (fun names _ read => ∃ ts closing,
      closing.kind = .symbol .rightParen ∧ read = ts ++ [closing] ∧
      Derives (.names names) ts) (parameters c) := by
  simp only [parameters, aheadIs_bind, ite_run, advance_bind, pure_run,
    decide_eq_true_eq]
  split
  next hclose =>
    refine ⟨.advance .refl, fun _ => ⟨[c.ahead], ?_, [], c.ahead, hclose, rfl, .noNames⟩⟩
    exact Cursor.upcoming_of_kind hclose (by simp)
  next =>
    refine sound_bind (identAhead_sound c) fun first c₁ hreach₁ hfirst => ?_
    simp only [cursor_bind]
    refine sound_bind (moreParameters_sound _ [first] c₁) fun names c₂ hreach₂ hnames => ?_
    refine sound_expect fun hclose => ?_
    refine ⟨(hreach₁.trans hreach₂).advance, fun hclean => ?_⟩
    rw [Cursor.advance_diagnostics] at hclean
    obtain ⟨hclean₁, hclean₂⟩ := hreach₁.unchanged hreach₂ hclean
    obtain ⟨_, htokens₁, t, hkind, rfl, rfl⟩ := hfirst hclean₁
    obtain ⟨ts, htokens₂, trees, rfl, hderives⟩ := hnames hclean₂
    refine ⟨t :: ts ++ [c₂.ahead], ?_, t :: ts, c₂.ahead, hclose, rfl, .names hkind hderives⟩
    rw [htokens₁, htokens₂, Cursor.upcoming_of_kind hclose (by simp)]
    simp

section Nested

variable (hnested : ∀ strength c, 1 ≤ strength →
  Sound c c.standing (Spelled strength) (nested strength c))
include hnested

theorem moreItems_sound (fuel : Nat) (read : List Node) (c : Cursor) :
    Sound c c.upcoming (fun items _ ts => ∃ trees, items = read.reverse ++ trees ∧
      Derives (.itemsTail trees) ts) (moreItems nested fuel read c) := by
  induction fuel generalizing read c with
  | zero => trivial
  | succ fuel ih =>
      simp only [moreItems, aheadIs_bind, ite_run, advance_bind, pure_run,
        decide_eq_true_eq]
      split
      next hcomma =>
        have hupcoming := Cursor.upcoming_of_kind hcomma (by simp)
        refine sound_bind (hnested lowest c.advance.advance (by decide))
          fun item c₁ hreach hitem => ?_
        refine (ih (item :: read) c₁).after (.trans (.advance (.advance .refl)) hreach) ?_
        rintro items c' ts hclean htokens ⟨trees, rfl, hderives⟩
        obtain ⟨is, htokens₁, hspelled⟩ := hitem (by simpa using hclean)
        rw [Cursor.standing_advance] at htokens₁
        refine ⟨c.ahead :: (is ++ ts), ?_, item :: trees, by simp,
          .itemsNext hcomma hspelled.expr hderives⟩
        rw [hupcoming, htokens₁, htokens]
        simp
      next => exact ⟨.refl, fun _ => ⟨[], rfl, [], by simp, .itemsEnd⟩⟩

theorem expressionList_sound {closing : Kind} (hclosing : closing ≠ .finish) (c : Cursor) :
    Sound c c.upcoming (fun items _ read => ∃ ts last, last.kind = closing ∧
      read = ts ++ [last] ∧ Derives (.items items) ts)
      (expressionList nested closing c) := by
  simp only [expressionList, aheadIs_bind, ite_run, advance_bind, pure_run,
    decide_eq_true_eq]
  split
  next hclose =>
    refine ⟨.advance .refl, fun _ => ⟨[c.ahead], ?_, [], c.ahead, hclose, rfl, .noItems⟩⟩
    exact Cursor.upcoming_of_kind hclose hclosing
  next =>
    refine sound_bind (hnested lowest c.advance (by decide)) fun first c₁ hreach₁ hfirst => ?_
    simp only [cursor_bind]
    refine sound_bind (moreItems_sound hnested _ [first] c₁) fun items c₂ hreach₂ hitems => ?_
    refine sound_expect fun hclose => ?_
    have hreach := Cursor.Reach.trans (.advance .refl) hreach₁
    refine ⟨(hreach.trans hreach₂).advance, fun hclean => ?_⟩
    rw [Cursor.advance_diagnostics] at hclean
    obtain ⟨hclean₁, hclean₂⟩ := hreach.unchanged hreach₂ hclean
    obtain ⟨is, htokens₁, hspelled⟩ := hfirst (by simpa using hclean₁)
    obtain ⟨ts, htokens₂, trees, rfl, hderives⟩ := hitems hclean₂
    rw [Cursor.standing_advance] at htokens₁
    refine ⟨is ++ ts ++ [c₂.ahead], ?_, is ++ ts, c₂.ahead, hclose, rfl,
      .items hspelled.expr hderives⟩
    rw [htokens₁, htokens₂, Cursor.upcoming_of_kind hclose hclosing]
    simp

theorem hashPairs_sound (fuel : Nat) (read : List (Node × Node)) (c : Cursor) :
    Sound c c.upcoming (fun entries _ ts => ∃ trees, trees ≠ [] ∧
      entries = read.reverse ++ trees ∧ Derives (.pairs trees) ts)
      (hashPairs nested fuel read c) := by
  induction fuel generalizing read c with
  | zero => trivial
  | succ fuel ih =>
      simp only [hashPairs, advance_bind]
      refine sound_bind (hnested lowest c.advance (by decide)) fun key c₁ hreach₁ hkey => ?_
      refine sound_expect fun hcolon => ?_
      simp only [advance_bind]
      refine sound_bind (hnested lowest c₁.advance.advance (by decide))
        fun value c₂ hreach₂ hvalue => ?_
      have hreach : c.Reach c₁ := .trans (.advance .refl) hreach₁
      have hreach' : c₁.Reach c₂ := .trans (.advance (.advance .refl)) hreach₂
      -- The pair itself, from the tokens of key and value.
      have hpair (hclean : c₂.diagnostics = c.diagnostics) :
          ∃ ks vs, c.upcoming = ks ++ c₁.ahead :: (vs ++ c₂.upcoming) ∧
            Derives (.expr .or key) ks ∧ Derives (.expr .or value) vs := by
        obtain ⟨hclean₁, hclean₂⟩ := hreach.unchanged hreach' hclean
        obtain ⟨ks, htokens₁, hspelled₁⟩ := hkey (by simpa using hclean₁)
        obtain ⟨vs, htokens₂, hspelled₂⟩ := hvalue (by simpa using hclean₂)
        rw [Cursor.standing_advance] at htokens₁ htokens₂
        refine ⟨ks, vs, ?_, hspelled₁.expr, hspelled₂.expr⟩
        rw [htokens₁, Cursor.upcoming_of_kind hcolon (by simp), htokens₂]
      simp only [aheadIs_bind, ite_run, advance_bind, pure_run, decide_eq_true_eq]
      split
      next hcomma =>
        refine (ih ((key, value) :: read) c₂.advance).after (hreach.trans hreach').advance ?_
        rintro entries c' ts hclean htokens ⟨trees, hne, rfl, hderives⟩
        obtain ⟨ks, vs, hupcoming, hks, hvs⟩ := hpair (by simpa using hclean)
        refine ⟨ks ++ c₁.ahead :: (vs ++ c₂.ahead :: ts), ?_, (key, value) :: trees,
          by simp, by simp, .pairs hcolon hks hvs (.pairsNext hcomma hne hderives)⟩
        rw [hupcoming, Cursor.upcoming_of_kind hcomma (by simp), htokens]
        simp
      next =>
        refine ⟨hreach.trans hreach', fun hclean => ?_⟩
        obtain ⟨ks, vs, hupcoming, hks, hvs⟩ := hpair hclean
        refine ⟨ks ++ c₁.ahead :: (vs ++ []), ?_, [(key, value)], by simp, by simp,
          .pairs hcolon hks hvs .pairsEnd⟩
        rw [hupcoming]
        simp

theorem hashLiteral_sound (hkind : c.current.kind = .symbol .leftBrace) :
    Sound c c.standing (fun tree _ read => Derives (.expr .suffix tree) read)
      (hashLiteral nested c) := by
  have hstanding : c.standing = c.current :: c.upcoming :=
    Cursor.standing_eq (by simp [hkind])
  simp only [hashLiteral, current_bind, aheadIs_bind, ite_run, advance_bind, pure_run,
    cursor_bind, decide_eq_true_eq]
  split
  next hclose =>
    refine ⟨.advance .refl, fun _ => ⟨[c.current, c.ahead], ?_, .hash hkind hclose .noPairs⟩⟩
    rw [hstanding, Cursor.upcoming_of_kind hclose (by simp)]
    rfl
  next =>
    refine sound_bind (hashPairs_sound hnested _ [] c) fun entries c₁ hreach hentries => ?_
    refine sound_expect fun hclose => ?_
    refine ⟨hreach.advance, fun hclean => ?_⟩
    obtain ⟨ts, htokens, trees, -, rfl, hderives⟩ := hentries (by simpa using hclean)
    refine ⟨c.current :: (ts ++ [c₁.ahead]), ?_, .hash hkind hclose hderives⟩
    rw [hstanding, htokens, Cursor.upcoming_of_kind hclose (by simp)]
    simp

/-- The value at the end of a statement, behind the tokens `front`. -/
theorem value_sound {make : Node → Node} (front : List Token) (hreach : base.Reach c)
    (htokens : c.diagnostics = base.diagnostics → tokens = front ++ c.standing)
    (hmake : ∀ value ts after, c.standing = ts ++ after → Derives (.expr .or value) ts →
      Derives (.statement (make value)) (front ++ ts))
    (hstops : ∀ value kind, ¬ kind.Extends → (make value).Stops kind) :
    Sound base tokens SpelledStatement
      ((do
        let value ← nested lowest
        skipIf (.symbol .semicolon)
        return make value : Parse Node) c) := by
  refine sound_bind (hnested lowest c (by decide)) fun value c₁ hreach₁ hvalue => ?_
  -- The value with what precedes it, whether or not a semicolon follows.
  have hread (hclean : c₁.diagnostics = base.diagnostics) :
      ∃ ts, tokens = front ++ ts ++ c₁.upcoming ∧
        Derives (.statement (make value)) (front ++ ts) ∧
        (make value).Stops c₁.ahead.kind := by
    obtain ⟨hclean₀, hclean₁⟩ := hreach.unchanged hreach₁ hclean
    obtain ⟨ts, htokens₁, hspelled⟩ := hvalue hclean₁
    refine ⟨ts, ?_, hmake value ts _ htokens₁ hspelled.expr, hstops value _ ?_⟩
    · rw [htokens hclean₀, htokens₁, List.append_assoc]
    · have hstrength : c₁.ahead.kind.strength ≤ 1 := hspelled.2
      rw [← Kind.continues_iff_extends, Kind.continues_iff_strength]
      omega
  simp only [bind_run, skipIf]
  by_cases hsemicolon : c₁.ahead.kind = .symbol .semicolon
  · simp only [hsemicolon, if_true]
    refine ⟨(hreach.trans hreach₁).advance, fun hclean => ?_⟩
    obtain ⟨ts, htokens₁, hderives, -⟩ := hread (by simpa using hclean)
    refine ⟨front ++ ts ++ [c₁.ahead], ?_, .inl ⟨_, c₁.ahead, hsemicolon, rfl, hderives⟩⟩
    rw [htokens₁, Cursor.upcoming_of_kind hsemicolon (by simp)]
    simp
  · simp only [hsemicolon, if_false]
    refine ⟨hreach.trans hreach₁, fun hclean => ?_⟩
    obtain ⟨ts, htokens₁, hderives, hstops⟩ := hread hclean
    exact ⟨front ++ ts, htokens₁, .inr ⟨hderives, hstops⟩⟩

theorem bindingStatement_sound (hkind : c.current.kind = .keyword .letWord) :
    Sound c c.standing SpelledStatement (bindingStatement nested c) := by
  have hstanding : c.standing = c.current :: c.upcoming :=
    Cursor.standing_eq (by simp [hkind])
  simp only [bindingStatement, current_bind, identAhead_bind]
  split
  next hname =>
    refine sound_expect fun hassign => ?_
    simp only [advance_bind]
    refine value_sound hnested [c.current, c.ahead, c.advance.ahead]
      (.advance (.advance (.advance .refl))) ?_ ?_ ?_
    · intro _
      rw [hstanding, Cursor.upcoming_of_kind hname (by simp),
        Cursor.upcoming_of_kind hassign (by simp), Cursor.standing_advance]
      rfl
    · intro value ts after _ hderives
      exact .binding hkind hname hassign hderives
    · intro value kind hextends
      exact hextends
  next => trivial

theorem returnStatement_sound (hkind : c.current.kind = .keyword .returnWord) :
    Sound c c.standing SpelledStatement (returnStatement nested c) := by
  have hstanding : c.standing = c.current :: c.upcoming :=
    Cursor.standing_eq (by simp [hkind])
  simp only [returnStatement, current_bind, cursor_bind, ite_run, advance_bind]
  split
  next hbare =>
    simp only [bind_run, skipIf]
    by_cases hsemicolon : c.ahead.kind = .symbol .semicolon
    · simp only [hsemicolon, if_true]
      refine ⟨.advance .refl, fun _ => ⟨[c.current, c.ahead], ?_,
        .inl ⟨[c.current], c.ahead, hsemicolon, rfl, .bareReturn hkind⟩⟩⟩
      rw [hstanding, Cursor.upcoming_of_kind hsemicolon (by simp)]
      rfl
    · simp only [hsemicolon, if_false]
      refine ⟨.refl, fun _ => ⟨[c.current], hstanding, .inr ⟨.bareReturn hkind, ?_⟩⟩⟩
      simpa [Node.Stops, hsemicolon] using hbare
  next =>
    refine value_sound hnested [c.current] (.advance .refl) ?_ ?_ ?_
    · intro _
      rw [hstanding, Cursor.standing_advance]
      rfl
    · intro value ts after _ hderives
      exact .ret hkind hderives
    · intro value kind hextends
      exact hextends

theorem statement_sound (c : Cursor) :
    Sound c c.standing SpelledStatement (statement nested c) := by
  rw [statement_run]
  split
  next hkind => exact bindingStatement_sound hnested hkind
  next hkind => exact returnStatement_sound hnested hkind
  next =>
    simp only [expressionStatement, current_bind]
    refine value_sound hnested [] .refl ?_ ?_ ?_
    · intro _
      rfl
    · intro value ts after htokens hderives
      cases ts with
      | nil => exact absurd hderives.starts (by simp [Derives.Starts, Cursor.nextKind, Kind.begins])
      | cons t ts =>
          have hfirst := (Cursor.standing_cons htokens).1
          rw [hfirst]
          exact .expression hderives
    · intro value kind hextends
      exact hextends

end Nested

/-- Statement after statement is read from one cursor to another, with nothing
recorded on the way. -/
inductive Reads (nested : Nested) : Cursor → List Node → Cursor → Prop where
  | none (c : Cursor) : Reads nested c [] c
  | next {c c₁ c₂ : Cursor} {tree : Node} {trees : List Node}
      (hstatement : statement nested c = .done tree c₁)
      (hclean : c₁.diagnostics = c.diagnostics)
      (hrest : Reads nested c₁.advance trees c₂) : Reads nested c (tree :: trees) c₂

/-- A closing brace or the end is no token of a statement, so the statements
before it are spelled by the tokens up to it. -/
theorem Reads.derives (hnested : ∀ strength c, 1 ≤ strength →
      Sound c c.standing (Spelled strength) (nested strength c))
    {c c' : Cursor} {trees : List Node} (h : Reads nested c trees c')
    (hend : c'.current.kind = .symbol .rightBrace ∨ c'.current.kind = .finish) :
    ∃ ts, c.standing = ts ++ c'.standing ∧ Derives (.statements trees) ts := by
  induction h with
  | none c => exact ⟨[], rfl, .noStatements⟩
  | @next c c₁ c₂ tree trees hstatement hclean _ ih =>
      obtain ⟨us, husub, hus⟩ := ih hend
      have hsound := statement_sound hnested c
      rw [hstatement] at hsound
      obtain ⟨read, htokens, hspelled⟩ := hsound.2 hclean
      rw [Cursor.standing_advance] at husub
      rcases hspelled with ⟨ts, semicolon, hsemicolon, rfl, hderives⟩ | ⟨hderives, hstops⟩
      · refine ⟨ts ++ semicolon :: us, ?_, .terminated hsemicolon hderives hus⟩
        rw [htokens, husub]
        simp
      · refine ⟨read ++ us, by rw [htokens, husub, List.append_assoc], ?_⟩
        refine .unterminated hderives ?_ hus
        rw [← Cursor.nextKind_upcoming, husub] at hstops
        exact Node.mayPrecede_of_stops hstops hus

section Blocks

variable {limit : Nat} (horderly : ∀ strength c, Orderly limit c (nested strength c))
include horderly

/-- Recovery that records nothing is a statement that was right. -/
theorem recovering_clean {depth : Int} {found : Option Node} {c' : Cursor}
    (h : recovering depth (statement nested) c = .done found c')
    (hclean : c'.diagnostics = c.diagnostics) :
    ∃ tree, found = some tree ∧ statement nested c = .done tree c' := by
  rcases recovering_done (statement_orderly horderly .refl) h with
    ⟨tree, hfound, hstatement, -⟩ | ⟨-, hgrown⟩
  · exact ⟨tree, hfound, hstatement⟩
  · rw [hclean] at hgrown
    exact absurd hgrown (Nat.lt_irrefl _)

variable (hbraced : ∀ strength depth c, Cursor.Before depth c →
  Braced depth (nested strength c))
include hbraced

/-- A block without diagnostics reads its statements one after another. -/
theorem blockStatements_reads {depth : Nat} (fuel : Nat) (read : List Node)
    (h : (∃ inner, depth ≤ inner ∧ c.Before inner) ∨ c.depth < depth) :
    (blockStatements nested depth fuel read c).Meets
      (fun found c' => c.Reach c' ∧ (c'.diagnostics = c.diagnostics →
        ∃ trees, found = read.reverse ++ trees ∧ Reads nested c trees c'))
      (fun _ => True) fun _ => True := by
  induction fuel generalizing read c with
  | zero => trivial
  | succ fuel ih =>
      simp only [blockStatements, cursor_bind, ite_run, pure_run, refuse_bind]
      split
      next => exact ⟨.refl, fun _ => ⟨[], by simp, .none c⟩⟩
      next hopen =>
        obtain ⟨inner, hle, hbefore⟩ := h.resolve_right hopen
        split
        next => trivial
        next =>
          rw [bind_run]
          cases hfound : recovering depth (statement nested) c with
          | refused c₁ => trivial
          | tooDeep c₁ => trivial
          | done found c₁ =>
              have hreach := recovering_reach horderly hfound
              simp only [cursor_bind, ite_run, advance_bind]
              split
              next hinside =>
                refine (ih _ (.inl ⟨c₁.depth, hinside, c₁.before_advance⟩)).mono ?_
                  (fun _ h => h) fun _ h => h
                rintro found' c' ⟨hreach', hreads⟩
                refine ⟨hreach.advance.trans hreach', fun hclean => ?_⟩
                obtain ⟨hclean₁, hclean₂⟩ := hreach.advance.unchanged hreach' hclean
                rw [Cursor.advance_diagnostics] at hclean₁
                obtain ⟨tree, rfl, hstatement⟩ := recovering_clean horderly hfound hclean₁
                obtain ⟨trees, rfl, hrest⟩ := hreads hclean₂
                exact ⟨tree :: trees, by simp, .next hstatement hclean₁ hrest⟩
              next houtside =>
                refine (ih _ (.inr (Nat.lt_of_not_le houtside))).mono ?_
                  (fun _ h => h) fun _ h => h
                rintro found' c' ⟨hreach', -⟩
                refine ⟨hreach.trans hreach', fun hclean => ?_⟩
                obtain ⟨hclean₁, -⟩ := hreach.unchanged hreach' hclean
                -- A statement that was right keeps the count of braces.
                obtain ⟨tree, rfl, hstatement⟩ := recovering_clean horderly hfound hclean₁
                have hdepth := statement_braced hbraced hbefore
                rw [hstatement] at hdepth
                exact absurd (Nat.le_trans hle (Nat.le_of_eq hdepth.symm)) houtside

variable (hnested : ∀ strength c, 1 ≤ strength →
  Sound c c.standing (Spelled strength) (nested strength c))
include hnested

theorem blockAhead_sound (c : Cursor) :
    Sound c c.upcoming (fun tree _ read => Derives (.block tree) read)
      (blockAhead nested c) := by
  refine sound_expect fun hopen => ?_
  have hinner : c.advance.advance.Before c.advance.depth := c.advance.before_advance
  have hreads := blockStatements_reads horderly hbraced c.advance.advance.turns []
    (.inl ⟨_, Nat.le_refl _, hinner⟩)
  have hclosed := blockStatements_closed hbraced c.advance.advance.turns []
    (.inl ⟨_, Nat.le_refl _, hinner⟩)
  simp only [block, cursor_bind, advance_bind]
  unfold Sound
  rw [bind_meets]
  refine (hreads.and hclosed).mono ?_ (fun _ _ => trivial) fun _ _ => trivial
  rintro found c' ⟨⟨hreach, hclean⟩, -, hclose⟩
  refine ⟨.trans (.advance (.advance .refl)) hreach, fun hsame => ?_⟩
  obtain ⟨trees, rfl, htrees⟩ := hclean (by simpa using hsame)
  obtain ⟨ts, htokens, hderives⟩ := htrees.derives hnested (.inl hclose)
  rw [Cursor.standing_advance, Cursor.standing_eq (by simp [hclose])] at htokens
  refine ⟨c.ahead :: (ts ++ [c'.current]), ?_, ?_⟩
  · rw [Cursor.upcoming_of_kind hopen (by simp), htokens]
    simp
  · rw [Cursor.advance_current]
    exact .block hopen hclose hderives

theorem conditional_sound (hkind : c.current.kind = .keyword .ifWord) :
    Sound c c.standing (fun tree _ read => Derives (.expr .suffix tree) read)
      (conditional nested c) := by
  have hstanding : c.standing = c.current :: c.upcoming :=
    Cursor.standing_eq (by simp [hkind])
  simp only [conditional, current_bind]
  refine sound_expect fun hopen => ?_
  simp only [advance_bind]
  refine sound_bind (hnested lowest c.advance.advance (by decide))
    fun condition c₁ hreach₁ hcondition => ?_
  refine sound_expect fun hclose => ?_
  refine sound_bind (blockAhead_sound horderly hbraced hnested c₁.advance)
    fun consequence c₂ hreach₂ hconsequence => ?_
  have hreach : c.Reach c₁ := .trans (.advance (.advance .refl)) hreach₁
  have hreach' : c₁.Reach c₂ := .trans (.advance .refl) hreach₂
  -- What the two branches of the rule have in common.
  have hfront (hclean : c₂.diagnostics = c.diagnostics) :
      ∃ cs bs, c.standing =
          c.current :: c.ahead :: (cs ++ c₁.ahead :: (bs ++ c₂.upcoming)) ∧
        Derives (.expr .or condition) cs ∧ Derives (.block consequence) bs := by
    obtain ⟨hclean₁, hclean₂⟩ := hreach.unchanged hreach' hclean
    obtain ⟨cs, htokens₁, hspelled⟩ := hcondition (by simpa using hclean₁)
    obtain ⟨bs, htokens₂, hblock⟩ := hconsequence (by simpa using hclean₂)
    rw [Cursor.standing_advance] at htokens₁
    refine ⟨cs, bs, ?_, hspelled.expr, hblock⟩
    rw [hstanding, Cursor.upcoming_of_kind hopen (by simp), htokens₁,
      Cursor.upcoming_of_kind hclose (by simp), htokens₂]
  simp only [aheadIs_bind, ite_run, advance_bind, pure_run, decide_eq_true_eq]
  split
  next helse =>
    refine sound_bind (blockAhead_sound horderly hbraced hnested c₂.advance)
      fun alternative c₃ hreach₃ halternative => ?_
    have hreach'' : c₂.Reach c₃ := .trans (.advance .refl) hreach₃
    refine ⟨(hreach.trans hreach').trans hreach'', fun hclean => ?_⟩
    obtain ⟨hclean₁, hclean₂⟩ := (hreach.trans hreach').unchanged hreach'' hclean
    obtain ⟨cs, bs, htokens, hcs, hbs⟩ := hfront hclean₁
    obtain ⟨as, htokens', has⟩ := halternative (by simpa using hclean₂)
    refine ⟨c.current :: c.ahead :: (cs ++ c₁.ahead :: (bs ++ c₂.ahead :: as)), ?_,
      .alternative hkind hopen hclose helse hcs hbs has⟩
    rw [htokens, Cursor.upcoming_of_kind helse (by simp), htokens']
    simp
  next =>
    refine ⟨hreach.trans hreach', fun hclean => ?_⟩
    obtain ⟨cs, bs, htokens, hcs, hbs⟩ := hfront hclean
    refine ⟨c.current :: c.ahead :: (cs ++ c₁.ahead :: bs), ?_,
      .conditional hkind hopen hclose hcs hbs⟩
    rw [htokens]
    simp

theorem functionLiteral_sound (hkind : c.current.kind = .keyword .fnWord) :
    Sound c c.standing (fun tree _ read => Derives (.expr .suffix tree) read)
      (functionLiteral nested c) := by
  have hstanding : c.standing = c.current :: c.upcoming :=
    Cursor.standing_eq (by simp [hkind])
  simp only [functionLiteral, current_bind]
  refine sound_expect fun hopen => ?_
  refine sound_bind (parameters_sound c.advance) fun names c₁ hreach₁ hnames => ?_
  refine sound_bind (blockAhead_sound horderly hbraced hnested c₁)
    fun body c₂ hreach₂ hbody => ?_
  have hreach : c.Reach c₁ := .trans (.advance .refl) hreach₁
  refine ⟨hreach.trans hreach₂, fun hclean => ?_⟩
  obtain ⟨hclean₁, hclean₂⟩ := hreach.unchanged hreach₂ hclean
  obtain ⟨_, htokens₁, ps, closing, hclose, rfl, hps⟩ := hnames (by simpa using hclean₁)
  obtain ⟨bs, htokens₂, hbs⟩ := hbody hclean₂
  refine ⟨c.current :: c.ahead :: (ps ++ closing :: bs), ?_,
    .function hkind hopen hclose hps hbs⟩
  rw [hstanding, Cursor.upcoming_of_kind hopen (by simp), htokens₁, htokens₂]
  simp

/-- What an operand is: a phrase of one of the two tightest levels, with nothing
behind it that binds more strongly. -/
theorem operand_sound (c : Cursor) :
    Sound c c.standing (fun tree c' read => ∃ level : Level, 8 ≤ level.strength ∧
      Derives (.expr level tree) read ∧ c'.ahead.kind.strength ≤ level.strength)
      (operand nested c) := by
  have hsuffix {outcome : Parsed Node}
      (h : outcome.Sound c c.standing fun tree _ read =>
        Derives (.expr .suffix tree) read) :
      outcome.Sound c c.standing fun tree c' read => ∃ level : Level, 8 ≤ level.strength ∧
        Derives (.expr level tree) read ∧ c'.ahead.kind.strength ≤ level.strength := by
    refine h.after .refl ?_
    intro tree c' read _ htokens hderives
    exact ⟨read, htokens, .suffix, by decide, hderives, Kind.strength_le _⟩
  have hstanding {kind : Kind} (h : c.current.kind = kind) (hkind : kind ≠ .finish) :
      c.standing = c.current :: c.upcoming :=
    Cursor.standing_eq (by rwa [h])
  rw [operand_run]
  split
  next hkind =>
    exact hsuffix ⟨.refl, fun _ => ⟨[c.current], hstanding hkind (by simp), .ident hkind⟩⟩
  next hkind =>
    rw [integerLiteral_run]
    split
    next n hvalue =>
      split
      next hmaximum =>
        exact hsuffix ⟨.refl, fun _ => ⟨[c.current], hstanding hkind (by simp),
          .integer hkind hvalue hmaximum⟩⟩
      next => trivial
    next => trivial
  next hkind =>
    exact hsuffix ⟨.refl, fun _ => ⟨[c.current], hstanding hkind (by simp), .text hkind⟩⟩
  next hkind =>
    exact hsuffix ⟨.refl, fun _ => ⟨[c.current], hstanding hkind (by simp), .boolean hkind⟩⟩
  next hkind =>
    exact hsuffix ⟨.refl, fun _ => ⟨[c.current], hstanding hkind (by simp), .boolean hkind⟩⟩
  case h_6 hkind | h_7 hkind | h_8 hkind =>
    simp only [unary, current_bind, advance_bind]
    refine sound_bind (hnested unaryStrength c.advance (by decide))
      fun operand c₁ hreach hoperand => ?_
    refine ⟨.trans (.advance .refl) hreach, fun hclean => ?_⟩
    obtain ⟨ts, htokens, hderives, hstrength⟩ := hoperand (by simpa using hclean)
    rw [Cursor.standing_advance] at htokens
    refine ⟨c.current :: ts, ?_, .unary, by decide, .unary (by simp [hkind, Kind.isSign])
      (hderives .unary (by decide) (by decide)), hstrength⟩
    rw [hstanding hkind (by simp), htokens]
    rfl
  next hkind =>
    simp only [grouped, advance_bind]
    refine hsuffix (sound_bind (hnested lowest c.advance (by decide))
      fun inner c₁ hreach hinner => sound_expect fun hclose => ?_)
    refine ⟨.trans (.advance .refl) hreach.advance, fun hclean => ?_⟩
    obtain ⟨ts, htokens, hspelled⟩ := hinner (by simpa using hclean)
    rw [Cursor.standing_advance] at htokens
    refine ⟨c.current :: (ts ++ [c₁.ahead]), ?_, .grouped hkind hclose hspelled.expr⟩
    rw [hstanding hkind (by simp), htokens, Cursor.upcoming_of_kind hclose (by simp)]
    simp
  next hkind => exact hsuffix (conditional_sound horderly hbraced hnested hkind)
  next hkind => exact hsuffix (functionLiteral_sound horderly hbraced hnested hkind)
  next hkind =>
    simp only [arrayLiteral, current_bind]
    refine hsuffix (sound_bind (expressionList_sound hnested (by simp) c)
      fun elements c₁ hreach helements => ?_)
    refine ⟨hreach, fun hclean => ?_⟩
    obtain ⟨_, htokens, ts, last, hclose, rfl, hderives⟩ := helements hclean
    refine ⟨c.current :: (ts ++ [last]), ?_, .array hkind hclose hderives⟩
    rw [hstanding hkind (by simp), htokens]
    rfl
  next hkind => exact hsuffix (hashLiteral_sound hnested hkind)
  next => trivial

end Blocks

section Operators

variable (hnested : ∀ strength c, 1 ≤ strength →
  Sound c c.standing (Spelled strength) (nested strength c))
include hnested

/-- An operator takes a left operand of its own level or a tighter one, and makes
a phrase of its level. -/
theorem continuation_sound (left : Node) (hcontinues : continues c.current.kind = true) :
    Sound c c.standing (fun tree c' read => ∀ level front,
        Derives (.expr level left) front → c.current.kind.strength ≤ level.strength →
        ∃ level' : Level, level'.strength = c.current.kind.strength ∧
          Derives (.expr level' tree) (front ++ read) ∧
          c'.ahead.kind.strength ≤ level'.strength)
      (continuation nested left c) := by
  have hstanding : c.standing = c.current :: c.upcoming :=
    Cursor.standing_eq (continues_ne_finish hcontinues)
  rw [continuation_run]
  split
  next hkind =>
    simp only [callRest, current_bind]
    refine sound_bind (expressionList_sound hnested (by simp) c)
      fun arguments c₁ hreach harguments => ?_
    refine ⟨hreach, fun hclean => ?_⟩
    obtain ⟨_, htokens, ts, last, hclose, rfl, hderives⟩ := harguments hclean
    refine ⟨c.current :: (ts ++ [last]), by rw [hstanding, htokens]; rfl, ?_⟩
    intro level front hleft hle
    rw [hkind] at hle ⊢
    obtain rfl := Level.strength_suffix hle
    exact ⟨.suffix, rfl, .call hkind hclose hleft hderives, Kind.strength_le _⟩
  next hkind =>
    simp only [indexRest, current_bind, advance_bind]
    refine sound_bind (hnested lowest c.advance (by decide)) fun place c₁ hreach hplace => ?_
    refine sound_expect fun hclose => ?_
    refine ⟨.trans (.advance .refl) hreach.advance, fun hclean => ?_⟩
    obtain ⟨ts, htokens, hspelled⟩ := hplace (by simpa using hclean)
    rw [Cursor.standing_advance] at htokens
    refine ⟨c.current :: (ts ++ [c₁.ahead]), ?_, ?_⟩
    · rw [hstanding, htokens, Cursor.upcoming_of_kind hclose (by simp)]
      simp
    · intro level front hleft hle
      rw [hkind] at hle ⊢
      obtain rfl := Level.strength_suffix hle
      exact ⟨.suffix, rfl, .index hkind hclose hleft hspelled.expr, Kind.strength_le _⟩
  next hparen hbracket =>
    obtain ⟨level', hjoins⟩ := Kind.joins_of_continues hcontinues hparen hbracket
    obtain ⟨hstrength, hle₇, -⟩ := Level.strength_of_joins hjoins
    have htighter : level'.tighter.strength = level'.strength + 1 := by
      refine Level.strength_tighter ?_
      rintro rfl
      exact absurd hle₇ (by decide)
    simp only [infixRest, current_bind, advance_bind]
    refine sound_bind (hnested _ c.advance (Kind.strength_pos _))
      fun right c₁ hreach hright => ?_
    refine ⟨.trans (.advance .refl) hreach, fun hclean => ?_⟩
    obtain ⟨ts, htokens, hderives, hnext⟩ := hright (by simpa using hclean)
    rw [Cursor.standing_advance] at htokens
    refine ⟨c.current :: ts, by rw [hstanding, htokens]; rfl, ?_⟩
    intro level front hleft hle
    refine ⟨level', hstrength.symm, ?_, by rwa [← hstrength]⟩
    refine .binary hjoins (hleft.looser (by omega)) (hderives _ (by omega) (by omega))

theorem climb_sound {strength : Int} (hpos : 1 ≤ strength) (fuel : Nat) (left : Node)
    (c : Cursor) :
    Sound c c.upcoming (fun tree c' read => ∀ (level : Level) front,
        Derives (.expr level left) front →
        (strength < level.strength ∨ 8 ≤ level.strength) →
        c.ahead.kind.strength ≤ level.strength →
        Spelled strength tree c' (front ++ read))
      (climb nested strength fuel left c) := by
  induction fuel generalizing left c with
  | zero => trivial
  | succ fuel ih =>
      simp only [climb, cursor_bind, ite_run, pure_run, advance_bind]
      split
      next hstop =>
        refine ⟨.refl, fun _ => ⟨[], rfl, ?_⟩⟩
        intro level front hleft hlevel _
        rw [List.append_nil]
        refine ⟨fun looser hle hle₈ => hleft.looser (by omega), ?_⟩
        simp only [Bool.or_eq_true, decide_eq_true_eq, Bool.not_eq_true'] at hstop
        rcases hstop with (hsemicolon | hweak) | hother
        · rw [hsemicolon]
          exact hpos
        · exact hweak
        · have hlow : ¬ 1 < c.ahead.kind.strength := by
            rw [← Kind.continues_iff_strength, hother]
            simp
          omega
      next hgo =>
        simp only [Bool.or_eq_true, decide_eq_true_eq, Bool.not_eq_true', not_or,
          Bool.not_eq_false] at hgo
        obtain ⟨⟨-, hstrong⟩, hcontinues⟩ := hgo
        have hcurrent : continues c.advance.current.kind = true := by
          rwa [Cursor.advance_current]
        refine sound_bind (continuation_sound hnested left hcurrent)
          fun longer c₁ hreach hlonger => ?_
        refine (ih longer c₁).after (.trans (.advance .refl) hreach) ?_
        intro tree c' read hclean htokens hspelled
        obtain ⟨rs, htokens₁, hjoin⟩ := hlonger (by simpa using hclean)
        rw [Cursor.standing_advance] at htokens₁
        refine ⟨rs ++ read, by rw [htokens₁, htokens, List.append_assoc], ?_⟩
        intro level front hleft _ hnext
        rw [Cursor.advance_current] at hjoin
        obtain ⟨level', hlevel', hderives, hnext'⟩ := hjoin level front hleft hnext
        rw [← List.append_assoc]
        exact hspelled level' (front ++ rs) hderives (by omega) hnext'

end Operators

/-- An expression of any depth of nesting is spelled by the tokens it reads. -/
theorem expression_sound (levels : Nat) (strength : Int) (c : Cursor)
    (hpos : 1 ≤ strength) :
    Sound c c.standing (Spelled strength) (expression levels strength c) := by
  induction levels generalizing strength c with
  | zero => trivial
  | succ levels ih =>
      simp only [expression]
      refine sound_bind (operand_sound (expression_orderly levels)
        (expression_braced levels) ih c) fun first c₁ hreach hfirst => ?_
      simp only [cursor_bind]
      refine (climb_sound ih hpos _ first c₁).after hreach ?_
      intro tree c' read hclean htokens hspelled
      obtain ⟨ts, htokens₁, level, hlevel, hderives, hnext⟩ := hfirst hclean
      refine ⟨ts ++ read, by rw [htokens₁, htokens, List.append_assoc], ?_⟩
      exact hspelled level ts hderives (.inr hlevel) hnext

/-- A program without diagnostics reads its statements up to the end. -/
theorem programStatements_reads {limit : Nat}
    (horderly : ∀ strength c, Orderly limit c (nested strength c)) (fuel : Nat)
    (read : List Node) (c : Cursor) :
    (programStatements nested fuel read c).Meets
      (fun found c' => c.Reach c' ∧ c'.current.kind = .finish ∧
        (c'.diagnostics = c.diagnostics →
          ∃ trees, found = read.reverse ++ trees ∧ Reads nested c trees c'))
      (fun _ => True) fun _ => True := by
  induction fuel generalizing read c with
  | zero => trivial
  | succ fuel ih =>
      simp only [programStatements, current_bind, ite_run, pure_run]
      split
      next hfinish => exact ⟨.refl, hfinish, fun _ => ⟨[], by simp, .none c⟩⟩
      next =>
        rw [bind_run]
        cases hfound : recovering 0 (statement nested) c with
        | refused c₁ => trivial
        | tooDeep c₁ => trivial
        | done found c₁ =>
            have hreach := recovering_reach horderly hfound
            simp only [advance_bind]
            apply (ih (found.toList ++ read) c₁.advance).mono
            · rintro found' c' ⟨hreach', hfinish, hreads⟩
              refine ⟨hreach.advance.trans hreach', hfinish, ?_⟩
              intro hclean
              obtain ⟨hclean₁, hclean₂⟩ := hreach.advance.unchanged hreach' hclean
              rw [Cursor.advance_diagnostics] at hclean₁
              obtain ⟨tree, rfl, hstatement⟩ := recovering_clean horderly hfound hclean₁
              obtain ⟨trees, rfl, hrest⟩ := hreads hclean₂
              exact ⟨tree :: trees, by simp, .next hstatement hclean₁ hrest⟩
            · exact fun _ h => h
            · exact fun _ h => h

end Parse

/-- A program that is parsed without diagnostics is derived from its tokens. -/
theorem Reading.derives_of_ofCursor {levels : Nat} {c : Cursor} {program : Node}
    (hstart : c.diagnostics = []) (h : ofCursor levels c = .parsed program []) :
    ∃ trees, program = .program trees ∧ Derives (.statements trees) c.standing := by
  have hreads := Parse.programStatements_reads (Parse.expression_orderly levels)
    c.turns [] c
  have hnever := Parse.programStatements_ne_refused levels c
  rw [ofCursor_eq] at h
  revert h hreads hnever
  cases Parse.programStatements (Parse.expression levels) c.turns [] c with
  | done trees after =>
      intro h hreads _
      simp only [ofStatements, Reading.parsed.injEq] at h
      obtain ⟨rfl, hdiagnostics⟩ := h
      obtain ⟨-, hfinish, hclean⟩ := hreads
      obtain ⟨_, rfl, hreads⟩ := hclean (hdiagnostics.trans hstart.symm)
      obtain ⟨ts, htokens, hderives⟩ :=
        hreads.derives (Parse.expression_sound levels) (.inr hfinish)
      have hend : after.standing = [] := by
        simp [Cursor.standing, hfinish]
      refine ⟨trees, rfl, ?_⟩
      rwa [htokens, hend, List.append_nil]
  | refused after => exact fun _ _ hnever => absurd rfl (hnever after)
  | tooDeep after =>
      intro h
      cases h

end Scriptlet
