import Scriptlet.Proofs.Eval.Leaving
import Scriptlet.Proofs.Print.RoundTrip

/-!
Return wrappers do what leaving does. A disciplined program that the parser has built,
evaluated where no wrapper is stored and where functions have disciplined bodies, comes to
what evaluation that leaves at once comes to, in which no wrapper occurs; and what it
leaves behind is of that kind again.
-/

namespace Scriptlet

open Eval

/-- No return wrapper, and no function but one with a disciplined block for its body. -/
def Value.Tame (v : Value) : Prop :=
  v.tag ≠ .returned ∧ ∀ id parameters body scope, v = .function id parameters body scope →
    body.Formed .block ∧ body.Disciplined

/-- All that is stored in the scopes is tame, with all that it holds. -/
def Heap.Tame (h : Heap) : Prop :=
  ∀ v, h.Stores v → v.Every Value.Tame

theorem Heap.Tame.unwrapped {h : Heap} (htame : h.Tame) : h.Unwrapped :=
  fun v hv => (htame v hv).mono fun htame => htame.1

theorem Heap.Tame.regular {m : Machine} (htame : m.heap.Tame) : m.Regular .disciplined := by
  constructor
  · exact uncounted
  · intro v hv
    apply (htame v hv).mono
    intro u hu
    exact ⟨uncounted, uncounted, hu.2⟩

theorem Value.Unwrapped.tame {v : Value} {m : Machine} (h : v.Unwrapped)
    (hlawful : m.Has .disciplined v) : v.Every Value.Tame :=
  (Value.Every.and h hlawful).mono fun hboth => ⟨hboth.1, hboth.2.body⟩

theorem Reading.formed {nesting : Nat} {c : Cursor} {program : Node}
    {diagnostics : List Diagnostic}
    (h : Reading.ofCursor nesting c = .parsed program diagnostics) :
    program.Formed .program := by
  have hany : c.Holds fun _ => True := fun _ _ _ => trivial
  obtain ⟨trees, rfl, htrees⟩ := Reading.statements_derive hany h
  apply Node.Formed.program
  intro tree htree
  obtain ⟨ts, hts, _⟩ := htrees tree htree
  exact hts.formed

/-- A program is never left: what leaves it is its result. -/
theorem program_carries (levels : Nat) (scope : ScopeId) (m : PlainMachine) {program : Node}
    (hformed : program.Formed .program) (hdisciplined : program.Disciplined)
    (hm : m.machine.Regular .disciplined) :
    Carries (Option.map Plain.value) Stays m (evaluate levels scope program)
      (Exiting.evaluate levels scope program) := by
  cases levels with
  | zero => exact rfl
  | succ levels =>
      have hnode : Law.disciplined.tree program := ⟨⟨_, hformed⟩, hdisciplined⟩
      cases hformed with
      | program _ =>
          apply catching_carries (statements_carries (evaluate_keeps .disciplined levels scope)
            (evaluate_carries levels scope) hm (fun _ => Law.disciplined.child hnode rfl) none)

/-- An ended evaluation as the language knows it. -/
def Exit.ended : Exit (Option Plain) → Outcome (Option Value)
  | .done found m => .done (found.map Plain.value) m.machine
  | .left d m => .done (some d.value) m.machine
  | .broken breach m => .broken breach m.machine
  | .tooDeep m => .tooDeep m.machine

theorem Exit.Shows.eq_ended {exit : Exit (Option Plain)} {shown : Outcome (Option Value)}
    (h : exit.Shows (Option.map Plain.value) Stays shown) : shown = exit.ended := by
  cases exit with
  | left d m =>
      obtain ⟨_, hno, _⟩ := h
      exact hno.elim
  | _ => exact h

theorem Exit.ended_unwrapped (exit : Exit (Option Plain)) :
    exit.ended.machine.heap.Unwrapped ∧
      ∀ v after, exit.ended = .done (some v) after → v.Unwrapped := by
  cases exit with
  | done found m =>
      constructor
      · exact m.unwrapped
      · intro v _ hdone
        obtain ⟨hfound, _⟩ := Outcome.done.inj hdone
        obtain ⟨d, _, rfl⟩ := Option.map_eq_some_iff.mp hfound
        exact d.unwrapped
  | left d m =>
      constructor
      · exact m.unwrapped
      · intro v _ hdone
        obtain ⟨hfound, _⟩ := Outcome.done.inj hdone
        obtain rfl := Option.some.inj hfound
        exact d.unwrapped
  | broken breach m => exact ⟨m.unwrapped, nofun⟩
  | tooDeep m => exact ⟨m.unwrapped, nofun⟩

/-- Return wrappers do what leaving does. A disciplined program that the parser has built,
evaluated where all that is stored is tame, has the result, the printed lines and the final
scopes of the evaluation in which a return leaves the nearest call or the program at once,
and in which no wrapper occurs. Whatever it comes to, all that is stored is tame again, and
so is its result. -/
theorem evaluate_eq_ended (levels nesting : Nat) (c : Cursor) (program : Node)
    (diagnostics : List Diagnostic)
    (hparsed : Reading.ofCursor nesting c = .parsed program diagnostics)
    (hdisciplined : program.Disciplined) (scope : ScopeId) (m : Machine)
    (htame : m.heap.Tame) :
    evaluate levels scope program m =
        (Exiting.evaluate levels scope program ⟨m, htame.unwrapped⟩).ended ∧
      (evaluate levels scope program m).machine.heap.Tame ∧
      ∀ v after, evaluate levels scope program m = .done (some v) after →
        v.Every Value.Tame := by
  have hformed := Reading.formed hparsed
  have hended : evaluate levels scope program m =
      (Exiting.evaluate levels scope program ⟨m, htame.unwrapped⟩).ended :=
    (program_carries levels scope ⟨m, htame.unwrapped⟩ hformed hdisciplined
      htame.regular).eq_ended
  obtain ⟨_, hregular, hresult⟩ := evaluate_keeps .disciplined levels scope program m
    ⟨⟨_, hformed⟩, hdisciplined⟩ htame.regular uncounted
  obtain ⟨hstored, hfound⟩ :=
    (Exiting.evaluate levels scope program ⟨m, htame.unwrapped⟩).ended_unwrapped
  rw [← hended] at hstored hfound
  refine ⟨hended, ?_, ?_⟩
  · intro v hv
    exact (hstored v hv).tame (hregular.stored hv)
  · intro v after hdone
    exact (hfound v after hdone).tame (hresult _ after hdone v rfl)

theorem tame_withScope : Machine.withScope.2.heap.Tame := by
  rintro v ⟨s, hs, name, hbinding⟩
  cases Array.mem_singleton.mp hs
  cases hbinding

/-- `if (x) { return 1 }; 2`, as the body of a function. -/
def earlyBody : Node :=
  .block ⟨.symbol .leftBrace, "\x7b", 1, 7⟩
    [.expression ⟨.keyword .ifWord, "if", 1, 9⟩
      (.conditional ⟨.keyword .ifWord, "if", 1, 9⟩ (.ident ⟨⟨.ident, "x", 1, 13⟩, "x"⟩)
        (.block ⟨.symbol .leftBrace, "\x7b", 1, 16⟩
          [.ret ⟨.keyword .returnWord, "return", 1, 18⟩
            (some (.integer ⟨.number, "1", 1, 25⟩ 1))]) none),
    .expression ⟨.number, "2", 1, 30⟩ (.integer ⟨.number, "2", 1, 30⟩ 2)]

/-- The function is called and 3 is added. -/
def earlyReturn : Node :=
  .program [.expression ⟨.keyword .fnWord, "fn", 1, 1⟩
    (.binary ⟨.symbol .plus, "+", 1, 40⟩
      (.call ⟨.symbol .leftParen, "(", 1, 33⟩
        (.function ⟨.keyword .fnWord, "fn", 1, 1⟩ [⟨⟨.ident, "x", 1, 4⟩, "x"⟩] earlyBody)
        [.boolean ⟨.keyword .trueWord, "true", 1, 34⟩ true])
      "+" (.integer ⟨.number, "3", 1, 42⟩ 3))]

theorem earlyReturn_disciplined : earlyReturn.Disciplined := by
  have hleaf {node : Node} (h : node.children = []) : node.Disciplined := by
    apply Node.Disciplined.of_children
    rw [h]
    exact nofun
  have hone {node child : Node} (hchildren : node.children = [child])
      (hbranches : child.branches = []) (h : child.Disciplined) : node.Disciplined := by
    apply Node.Disciplined.of_children
    rw [hchildren]
    exact List.forall_mem_singleton.mpr ⟨hbranches, h⟩
  have htwo {node first second : Node} (hchildren : node.children = [first, second])
      (hfirst : first.branches = [] ∧ first.Disciplined)
      (hsecond : second.branches = [] ∧ second.Disciplined) : node.Disciplined := by
    apply Node.Disciplined.of_children
    rw [hchildren]
    exact List.forall_mem_cons.mpr ⟨hfirst, List.forall_mem_singleton.mpr hsecond⟩
  have hbody : earlyBody.Disciplined := by
    apply htwo rfl
    · refine ⟨rfl, .statement _ (htwo rfl ⟨rfl, hleaf rfl⟩ ⟨rfl, ?_⟩)⟩
      exact hone rfl rfl (hone rfl rfl (hleaf rfl))
    · exact ⟨rfl, .statement _ (hleaf rfl)⟩
  apply hone rfl rfl
  apply Node.Disciplined.statement
  apply htwo rfl
  · refine ⟨rfl, htwo rfl ⟨rfl, ?_⟩ ⟨rfl, hleaf rfl⟩⟩
    exact htwo rfl ⟨rfl, hleaf rfl⟩ ⟨rfl, hbody⟩
  · exact ⟨rfl, hleaf rfl⟩

theorem earlyReturn_ended :
    Reading.ofText 20 .empty "fn(x) \x7b if (x) \x7b return 1 \x7d; 2 \x7d(true) + 3" =
        .parsed earlyReturn [] ∧
      earlyReturn.Disciplined ∧ Machine.withScope.2.heap.Tame ∧
      ∃ after, Exiting.evaluate 20 0 earlyReturn ⟨_, tame_withScope.unwrapped⟩ =
          .done (some (.flat (.integer 4) rfl)) after ∧
        evaluate 20 0 earlyReturn Machine.withScope.2 =
          .done (some (.integer 4)) after.machine := by
  have hparsed : Reading.ofText 20 .empty
      "fn(x) \x7b if (x) \x7b return 1 \x7d; 2 \x7d(true) + 3" = .parsed earlyReturn [] := rfl
  refine ⟨hparsed, earlyReturn_disciplined, tame_withScope, _, rfl, ?_⟩
  exact (evaluate_eq_ended 20 20 _ earlyReturn [] hparsed earlyReturn_disciplined 0 _
    tame_withScope).1

end Scriptlet
