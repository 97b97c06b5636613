import Scriptlet.Proofs.Eval.Unheard
import Scriptlet.Proofs.Session.Cutting

/-!
A session is what it evaluates. Of the texts up to the first that tells it to leave, those that
are read in the mode for it, are no commands or comments and have nothing said against them are
evaluated one after the other; all others leave what is bound as it is. The mode is changed by
nothing but a command that names another.
-/

namespace Scriptlet

namespace Session

/-- The text tells the session to leave. -/
def leaves (text : String) : Bool :=
  text = "exit" || text = "quit"

/-- The mode that a text switches to. -/
def switch? (text : String) : Option Mode :=
  match text.toList with
  | ':' :: 'm' :: 'o' :: 'd' :: 'e' :: ' ' :: argument =>
    Mode.ofName? (Text.trim (String.ofList argument))
  | _ => none

/-- The text is a program: it is not blank, no comment, no command and does not tell the session
to leave. -/
def IsSource (text : String) : Prop :=
  text ≠ "" ∧ text.toList.head? ≠ some '#' ∧ text.toList.head? ≠ some ':' ∧ leaves text = false

instance : DecidablePred IsSource :=
  fun _ => inferInstanceAs (Decidable (_ ∧ _ ∧ _ ∧ _))

/-- What is evaluated of a text: all of it or nothing. -/
def evaluated (limits : Limits) (aliases : AliasTable) (mode : Mode) (text : String) :
    List Node :=
  if mode = .eval ∧ IsSource text then
    match Reading.ofText limits.nesting aliases text with
    | .parsed tree [] => [tree]
    | _ => []
  else []

/-- The mode behind texts. -/
def modeAfter : Mode → List String → Mode
  | mode, [] => mode
  | mode, text :: texts => modeAfter ((switch? text).getD mode) texts

/-- What is evaluated of texts, in order. -/
def programs (limits : Limits) (aliases : AliasTable) : Mode → List String → List Node
  | _, [] => []
  | mode, text :: texts =>
    evaluated limits aliases mode text ++ programs limits aliases ((switch? text).getD mode) texts

end Session

/-- The machine behind trees that are evaluated one after the other. One that is given up on, or
breaks off, leaves it as it is then. -/
def Machine.evaluateAll (limits : Limits) (scope : ScopeId) (trees : List Node) (m : Machine) :
    Machine :=
  trees.foldl (fun m tree => (evaluate limits.depth scope tree m).machine) m

namespace Session

variable {limits : Limits} {aliases : AliasTable} {mode : Mode} {m : Machine} {text : String}

theorem switch?_of_command {rest : List Char} (h : text.toList = ':' :: rest) :
    let name := rest.takeWhile (· != ' ')
    switch? text = if String.ofList name = "mode" then
      Mode.ofName? (Text.trim (String.ofList (rest.drop (name.length + 1)))) else none := by
  intro name
  have hsplit : name ++ rest.dropWhile (· != ' ') = rest := List.takeWhile_append_dropWhile
  have hmode : String.ofList name = "mode" ↔ name = ['m', 'o', 'd', 'e'] := by
    rw [← String.toList_inj, String.toList_ofList]
    rfl
  rw [switch?, h]
  split
  next argument hargument =>
    obtain rfl : rest = 'm' :: 'o' :: 'd' :: 'e' :: ' ' :: argument := (List.cons.inj hargument).2
    rfl
  next hother =>
    split
    next hname =>
      rw [hmode] at hname
      cases hrest : rest.dropWhile (· != ' ') with
      | nil =>
          rw [hrest, hname] at hsplit
          rw [hname, ← hsplit]
          decide +kernel
      | cons c tail =>
          have hspace : c = ' ' := by
            have hhead := List.head?_dropWhile_not (· != ' ') rest
            rw [hrest] at hhead
            simpa using hhead
          rw [hrest, hname, hspace] at hsplit
          exact absurd (congrArg (':' :: ·) hsplit.symm) (hother tail)
    next => rfl

theorem switch?_eq_none (h : text.toList.head? ≠ some ':') : switch? text = none := by
  unfold switch?
  split
  next hcommand =>
    rw [hcommand] at h
    exact absurd rfl h
  next => rfl

/-- The four things that a text can be to a session. -/
theorem entry_cases (text : String) :
    (leaves text = true ∧ Entry.ofText text = .leave) ∨
    (leaves text = false ∧ ¬ IsSource text ∧ switch? text = none ∧
      Entry.ofText text = .nothing) ∨
    (leaves text = false ∧ ¬ IsSource text ∧ ∃ name argument,
      Entry.ofText text = .command name argument ∧
      switch? text = if name = "mode" then Mode.ofName? argument else none) ∨
    (leaves text = false ∧ IsSource text ∧ switch? text = none ∧
      Entry.ofText text = .source text) := by
  unfold Entry.ofText
  split
  next hleaves => exact .inl ⟨hleaves, rfl⟩
  next hleaves =>
    have hstays : leaves text = false := Bool.eq_false_iff.mpr hleaves
    split
    next hnil =>
      have hsource : ¬ IsSource text := fun h => h.1 (String.toList_eq_nil_iff.mp hnil)
      exact .inr (.inl ⟨hstays, hsource, switch?_eq_none (by simp [hnil]), rfl⟩)
    next rest hcomment =>
      have hsource : ¬ IsSource text := fun h => h.2.1 (by simp [hcomment])
      exact .inr (.inl ⟨hstays, hsource, switch?_eq_none (by simp [hcomment]), rfl⟩)
    next rest hcommand =>
      have hsource : ¬ IsSource text := fun h => h.2.2.1 (by simp [hcommand])
      exact .inr (.inr (.inl ⟨hstays, hsource, _, _, rfl, switch?_of_command hcommand⟩))
    next hnil hcomment hcommand =>
      have hhead {c : Char} (h : text.toList.head? = some c) : ∃ rest, text.toList = c :: rest :=
        List.head?_eq_some_iff.mp h
      have hcolon : text.toList.head? ≠ some ':' :=
        fun h => (hhead h).elim fun rest hrest => hcommand rest hrest
      have hhash : text.toList.head? ≠ some '#' :=
        fun h => (hhead h).elim fun rest hrest => hcomment rest hrest
      have hne : text ≠ "" := fun h => hnil (String.toList_eq_nil_iff.mpr h)
      exact .inr (.inr (.inr ⟨hstays, ⟨hne, hhash, hcolon, hstays⟩, switch?_eq_none hcolon, rfl⟩))

/-- The session is in a mode, and what is bound in it is what is bound in the machine. -/
structure Stands (s : Session) (aliases : AliasTable) (mode : Mode) (m : Machine) : Prop where
  mode : s.mode = mode
  aliases : s.aliases = aliases
  scope : s.scope = Machine.withScope.1
  same : s.machine.Same m

/-- The session stands between two texts. -/
structure Ready (s : Session) (aliases : AliasTable) (mode : Mode) (m : Machine) : Prop
    extends Stands s aliases mode m where
  pending : s.pending = []
  balance : s.balance = 0

variable {s : Session}

theorem Ready.holding_nil (h : s.Ready aliases mode m) : s.holding [] = s := by
  obtain ⟨_, _, _, _, pending, balance⟩ := s
  have hpending : pending = [] := h.pending
  have hbalance : balance = 0 := h.balance
  rw [hpending, hbalance]
  rfl

theorem Stands.holding (h : s.Stands aliases mode m) (lines : List String) :
    (s.holding lines).Stands aliases mode m :=
  ⟨h.mode, h.aliases, h.scope, h.same⟩

/-- Another mode, and a machine that differs in what was printed and noted, make no
other session. -/
theorem Ready.moved (h : s.Ready aliases mode m) (other : Mode) {n n' : Machine}
    (hsame : n.Same n') : Ready { s with mode := other, machine := n } aliases other n' :=
  ⟨⟨rfl, h.aliases, h.scope, hsame⟩, h.pending, h.balance⟩

theorem Ready.with_machine (h : s.Ready aliases mode m) {n n' : Machine} (hsame : n.Same n') :
    Ready { s with machine := n } aliases mode n' :=
  ⟨⟨h.mode, h.aliases, h.scope, hsame⟩, h.pending, h.balance⟩

theorem ready_start (mode : Mode) (aliases : AliasTable) :
    (start mode aliases).Ready aliases mode Machine.withScope.2 :=
  ⟨⟨rfl, rfl, rfl, rfl, rfl⟩, rfl, rfl⟩

/-- A command binds nothing, whatever it shows. -/
theorem handleCommand_ready (h : s.Ready aliases mode m) (name argument : String) :
    (s.handleCommand name argument).2.Ready aliases
      ((if name = "mode" then Mode.ofName? argument else none).getD mode) m := by
  unfold handleCommand
  split
  next =>
    unfold switchMode
    cases Mode.ofName? argument with
    | some other => exact h.moved other ⟨h.same.heap, h.same.nextId⟩
    | none => exact h
  next => exact h
  next => exact h
  next hname _ _ =>
    rw [if_neg hname]
    exact h

theorem showTree_ready (h : s.Ready aliases mode m) (text : String) :
    (s.showTree limits text).2.Ready aliases mode m := by
  unfold showTree
  split
  · exact h.with_machine ⟨h.same.heap, h.same.nextId⟩
  · exact h
  · exact h.with_machine ⟨h.same.heap, h.same.nextId⟩

/-- A text with nothing said against it is evaluated, and what has been printed before makes no
difference. -/
theorem evaluateText_ready (h : s.Ready aliases .eval m) (hsource : IsSource text) :
    (s.evaluateText limits text).2.Ready aliases .eval
      (m.evaluateAll limits Machine.withScope.1 (evaluated limits aliases .eval text)) := by
  have hquiet : Machine.Same { s.machine with printed := #[] } m := ⟨h.same.heap, h.same.nextId⟩
  apply h.with_machine
  show Machine.Same (runText limits s.aliases s.scope text { s.machine with printed := #[] }).2 _
  rw [evaluated, if_pos ⟨rfl, hsource⟩, h.aliases, h.scope]
  unfold runText
  cases Reading.ofText limits.nesting aliases text with
  | tooDeep diagnostics => exact ⟨hquiet.heap, hquiet.nextId⟩
  | parsed tree diagnostics =>
      cases diagnostics with
      | cons diagnostic diagnostics => exact ⟨hquiet.heap, hquiet.nextId⟩
      | nil =>
          have hrun := evaluate_same hquiet limits.depth Machine.withScope.1 tree
          simp only [Node.run]
          revert hrun
          cases evaluate limits.depth Machine.withScope.1 tree _ <;> exact id

/-- A program binds what its evaluation binds, in the mode that evaluates. -/
theorem handleSource_ready (h : s.Ready aliases mode m) (hsource : IsSource text) :
    (s.handleSource limits text).2.Ready aliases mode
      (m.evaluateAll limits Machine.withScope.1 (evaluated limits aliases mode text)) := by
  unfold handleSource
  rw [h.mode]
  cases mode with
  | token => exact h
  | parse => exact showTree_ready h text
  | eval => exact evaluateText_ready h hsource

/-- One text: the session ends, or is ready for the next. -/
theorem enter_cases (h : s.Ready aliases mode m) (limits : Limits) (text : String) :
    (leaves text = true ∧ (s.enter limits text).finished = true ∧
      (s.enter limits text).session = s) ∨
    (leaves text = false ∧ (s.enter limits text).finished = false ∧
      (s.enter limits text).session.Ready aliases ((switch? text).getD mode)
        (m.evaluateAll limits Machine.withScope.1 (evaluated limits aliases mode text))) := by
  have hnone (hsource : ¬ IsSource text) : evaluated limits aliases mode text = [] :=
    if_neg fun hboth => hsource hboth.2
  rcases entry_cases text with ⟨hleaves, hentry⟩ | ⟨hstays, hsource, hswitch, hentry⟩ |
    ⟨hstays, hsource, name, argument, hentry, hswitch⟩ | ⟨hstays, hsource, hswitch, hentry⟩
  · left
    rw [enter, hentry]
    exact ⟨hleaves, rfl, rfl⟩
  · right
    rw [enter, hentry, hswitch, hnone hsource]
    exact ⟨hstays, rfl, h⟩
  · right
    rw [enter, hentry, hswitch, hnone hsource]
    exact ⟨hstays, rfl, handleCommand_ready h name argument⟩
  · right
    rw [enter, hentry, hswitch]
    exact ⟨hstays, rfl, handleSource_ready h hsource⟩

/-- The texts that a session hears: those before the first that tells it to leave. -/
def heard (texts : List String) : List String :=
  texts.takeWhile fun text => !leaves text

theorem evaluateAll_append (limits : Limits) (scope : ScopeId) (first second : List Node)
    (m : Machine) : m.evaluateAll limits scope (first ++ second) =
      (m.evaluateAll limits scope first).evaluateAll limits scope second :=
  List.foldl_append

/-- A session that is ready, over lines that are cut into texts: where it stands behind them,
that it has read no more if it was told to leave, and that it goes on from there if not. -/
theorem converse_cut {lines : List String} {chunks : List (List String)} {rest : List String}
    (hcut : Cut lines chunks rest) (h : s.Ready aliases mode m) (limits : Limits) :
    let texts := chunks.map wholeText
    let point := (s.converse limits (lines.map .line)).2
    point.Stands aliases (modeAfter mode (heard texts))
      (m.evaluateAll limits Machine.withScope.1 (programs limits aliases mode (heard texts))) ∧
    (heard texts ≠ texts →
      (s.converse limits (lines.map .line)).1.length =
        (chunks.take ((heard texts).length + 1)).flatten.length ∧
      ∀ more, s.converse limits (lines.map .line ++ more) =
        s.converse limits (lines.map .line)) ∧
    (heard texts = texts → ∀ more, (s.converse limits (lines.map .line ++ more)).2 =
      (point.converse limits more).2) := by
  induction hcut generalizing s mode m with
  | @rest lines hopen =>
      obtain ⟨exchanges, -, hall⟩ := converse_open limits s (show Open ([] ++ lines) from hopen)
      rw [h.holding_nil] at hall
      have hend := hall []
      rw [List.append_nil] at hend
      refine ⟨?_, fun hne => absurd rfl hne, ?_⟩
      · rw [hend]
        exact h.toStands.holding _
      · intro _ more
        rw [hall more, hend]
        rfl
  | @whole chunk lines chunks rest hchunk _ ih =>
      obtain ⟨exchanges, hlength, hall⟩ := converse_whole limits s hchunk
      rw [h.holding_nil] at hall
      have hhere (more : List Input) := hall (lines.map .line ++ more)
      simp only [← List.append_assoc, ← List.map_append] at hhere
      have hend := hhere []
      rw [List.append_nil] at hend
      rcases enter_cases h limits (wholeText chunk) with ⟨hleaves, hfinished, hsame⟩ |
        ⟨hstays, hfinished, hready⟩
      · simp only [hfinished, if_true, hsame] at hhere hend
        have hheard : heard (wholeText chunk :: chunks.map wholeText) = [] := by
          simp [heard, hleaves]
        simp only [List.map_cons, hheard, hend, hhere]
        exact ⟨h.toStands, fun _ => ⟨by simp [hlength], fun _ => trivial⟩, fun heq => nomatch heq⟩
      · simp only [hfinished, Bool.false_eq_true, if_false] at hhere hend
        obtain ⟨hstands, hleft, hgoes⟩ := ih hready
        have hheard : heard (wholeText chunk :: chunks.map wholeText) =
            wholeText chunk :: heard (chunks.map wholeText) := by
          simp [heard, hstays]
        simp only [List.map_cons, hheard]
        rw [List.append_nil] at hend
        refine ⟨?_, ?_, ?_⟩
        · rw [hend, modeAfter, programs, evaluateAll_append]
          exact hstands
        · intro hne
          obtain ⟨hread, hsame⟩ := hleft fun heq => hne (by rw [heq])
          refine ⟨?_, ?_⟩
          · rw [hend]
            simp [hlength, hread]
          · intro more
            rw [hhere more, hend, hsame]
        · intro heq more
          rw [hhere more, hend]
          exact hgoes (List.cons.inj heq).2 more

/-- A session over any lines, which are cut into texts in one way. What is bound behind them is
what evaluating the programs among the texts one after the other binds, from an empty scope on,
and the mode is the last that was named. If a text has told the session to leave, nothing behind
it was read and nothing that comes later matters; if not, the session goes on from there. -/
theorem session_is_fold (limits : Limits) (mode : Mode) (aliases : AliasTable)
    (lines : List String) :
    ∃ chunks rest, Cut lines chunks rest ∧
      (∀ others tail, Cut lines others tail → others = chunks ∧ tail = rest) ∧
      let texts := chunks.map wholeText
      let session := start mode aliases
      let point := (session.converse limits (lines.map .line)).2
      (point.scope = Machine.withScope.1 ∧
        point.machine.heap = (Machine.withScope.2.evaluateAll limits Machine.withScope.1
          (programs limits aliases mode (heard texts))).heap) ∧
      (point.mode ∈ Mode.all ∧ point.mode = modeAfter mode (heard texts)) ∧
      (heard texts ≠ texts →
        (session.converse limits (lines.map .line)).1.length =
          (chunks.take ((heard texts).length + 1)).flatten.length ∧
        ∀ more, session.converse limits (lines.map .line ++ more) =
          session.converse limits (lines.map .line)) ∧
      (heard texts = texts → ∀ more, (session.converse limits (lines.map .line ++ more)).2 =
        (point.converse limits more).2) := by
  obtain ⟨chunks, rest, hcut⟩ := exists_cut open_nil lines
  rw [List.nil_append] at hcut
  obtain ⟨hstands, hleft, hgoes⟩ := converse_cut hcut (ready_start mode aliases) limits
  have hall (mode : Mode) : mode ∈ Mode.all := by
    cases mode <;> decide
  exact ⟨chunks, rest, hcut, fun _ _ => hcut.unique, ⟨hstands.scope, hstands.same.heap⟩,
    ⟨hall _, hstands.mode⟩, hleft, hgoes⟩

/-- A text of two lines, and then the word that ends the session. -/
theorem exit_ends_session :
    let session := start .eval .empty
    let lines := ["let a = \x7b", "1: 2\x7d;", "exit"]
    Cut lines [["let a = \x7b", "1: 2\x7d;"], ["exit"]] [] ∧
      (session.converse {} (lines.map .line)).1.length = 3 ∧
      ∀ more, session.converse {} (lines.map .line ++ more) =
        session.converse {} (lines.map .line) := by
  intro session lines
  have hopen : Open ["let a = \x7b"] := open_nil.snoc (by decide +kernel)
  have hcut : Cut lines [["let a = \x7b", "1: 2\x7d;"], ["exit"]] [] :=
    .whole (.intro hopen (by decide +kernel))
      (.whole (.intro open_nil (by decide +kernel)) (.rest open_nil))
  obtain ⟨chunks, rest, -, hunique, -, -, hleft, -⟩ := session_is_fold {} .eval .empty lines
  obtain ⟨rfl, rfl⟩ := hunique _ _ hcut
  have hheard : heard (List.map wholeText [["let a = \x7b", "1: 2\x7d;"], ["exit"]]) =
      ["let a = \x7b\n1: 2\x7d;"] := by
    decide +kernel
  obtain ⟨hread, hsame⟩ := hleft (by rw [hheard]; decide +kernel)
  rw [hheard] at hread
  exact ⟨hcut, hread, hsame⟩

end Session

end Scriptlet
