import Mathlib.Data.List.Induction
import Scriptlet.Proofs.Lex.Regions
import Scriptlet.Proofs.Session.Cutting

/-!
When a session asks for another line. It counts braces as characters, so behind the lines of a
text it has the braces that the lexer reads as tokens and with them those that stand in comments
and quoted texts, which the lexer does not. As long as the two together leave a brace open, lines
are taken in without a word; then they are put together and handled as one text.
-/

namespace Scriptlet

namespace Session

def joined (lines : List String) : String :=
  "\n".intercalate lines

theorem braceBalance_append (a b : String) :
    braceBalance (a ++ b) = braceBalance a + braceBalance b := by
  unfold braceBalance
  rw [String.toList_append, List.count_append, List.count_append]
  omega

theorem openBraces_cons (line : String) (lines : List String) :
    openBraces (line :: lines) = braceBalance line + openBraces lines := by
  induction lines using List.reverseRecOn with
  | nil => simp [openBraces]
  | append_singleton lines last ih =>
      rw [← List.cons_append, openBraces_snoc, openBraces_snoc, ih, Int.add_assoc]

/-- Between the lines no brace is gained or lost. -/
theorem openBraces_eq_joined (lines : List String) :
    openBraces lines = braceBalance (joined lines) := by
  induction lines with
  | nil => rfl
  | cons line lines ih =>
      cases lines with
      | nil => simp [openBraces, joined]
      | cons next lines =>
          have hnewline : braceBalance "\n" = 0 := by decide
          rw [openBraces_cons, ih, joined, joined, String.intercalate_cons_cons,
            braceBalance_append, braceBalance_append, hnewline, Int.add_zero]

/-- The braces that are open behind lines: those of the tokens, and those that stand in comments
and quoted texts. -/
def bracesBehind (table : AliasTable) (lines : List String) : Int :=
  Scriptlet.openBraces (Lexer.tokenize table (joined lines)) + hiddenBraces (joined lines)

theorem openBraces_eq_bracesBehind (table : AliasTable) (lines : List String) :
    openBraces lines = bracesBehind table lines := by
  rw [openBraces_eq_joined, bracesBehind, Lexer.openBraces_tokenize]
  exact (bracesIn_add_not Region.isCode .code (joined lines).toList).symm

/-- The prompt behind lines of an unfinished text. -/
def promptBehind (lines : List String) : String :=
  if lines.isEmpty then ">> " else ".. "

/-- What is said to lines that are taken in behind others. -/
def takenIn : List String → List String → List Exchange
  | _, [] => []
  | held, line :: lines => ⟨promptBehind held, ""⟩ :: takenIn (held ++ [line]) lines

variable (limits : Limits) (s : Session)

theorem prompt_holding (lines : List String) : (s.holding lines).prompt = promptBehind lines := by
  simp [prompt, holding, promptBehind]

theorem converse_takenIn {held lines : List String} (h : Open (held ++ lines))
    (more : List Input) :
    (s.holding held).converse limits (lines.map .line ++ more) =
      (takenIn held lines ++ ((s.holding (held ++ lines)).converse limits more).1,
        ((s.holding (held ++ lines)).converse limits more).2) := by
  induction lines generalizing held with
  | nil => simp [takenIn]
  | cons line lines ih =>
      rw [List.append_cons] at h
      have hline : 0 < openBraces (held ++ [line]) := h _ _ rfl (by simp)
      rw [List.map_cons, List.cons_append, converse_line, feed_open limits s hline,
        prompt_holding]
      simp only [ih h, List.append_cons held line lines]
      rfl

/-- A session asks for another line as long as braces are open, and these are the braces of the
tokens together with those in comments and quoted texts. Behind lines each of which left a brace
open, a line that leaves one open too is taken in without a word; with any other line, all of them
joined by newlines and without the blanks at the ends are handled as one text. -/
theorem converse_bracesBehind (lines : List String) (line : String) (more : List Input)
    (hopen : ∀ first rest, lines = first ++ rest → first ≠ [] →
      0 < bracesBehind s.aliases first) :
    (s.holding []).converse limits ((lines ++ [line]).map .line ++ more) =
      if 0 < bracesBehind s.aliases (lines ++ [line]) then
        (takenIn [] (lines ++ [line]) ++
            ((s.holding (lines ++ [line])).converse limits more).1,
          ((s.holding (lines ++ [line])).converse limits more).2)
      else
        let reply := (s.holding []).enter limits (wholeText (lines ++ [line]))
        let exchanges := takenIn [] lines ++ [⟨promptBehind lines, reply.output⟩]
        if reply.finished then (exchanges, reply.session)
        else (exchanges ++ (reply.session.converse limits more).1,
          (reply.session.converse limits more).2) := by
  have hlines : Open lines := by
    intro first rest heq hne
    rw [openBraces_eq_bracesBehind s.aliases]
    exact hopen first rest heq hne
  split
  next hline =>
    rw [← openBraces_eq_bracesBehind] at hline
    exact @converse_takenIn limits s [] _ (hlines.snoc hline) more
  next hline =>
    rw [← openBraces_eq_bracesBehind, Int.not_lt] at hline
    rw [List.map_append, List.append_assoc, @converse_takenIn limits s [] _ hlines,
      List.nil_append, List.map_singleton, List.singleton_append, converse_line,
      feed_closed limits s hline, prompt_holding]
    simp only
    split
    · rfl
    · simp

/-- A brace in a comment closes what the code has opened. -/
theorem converse_bracesBehind_comment :
    0 < bracesBehind .empty ["if (x) \x7b"] ∧
      ((start .token .empty).converse {} [.line "if (x) \x7b", .line "# \x7d"]).1.map
        Exchange.prompt = [">> ", ".. ", ">> "] := by
  have hfirst : 0 < bracesBehind .empty ["if (x) \x7b"] := by decide +kernel
  refine ⟨hfirst, ?_⟩
  have hread := converse_bracesBehind {} (start .token .empty) ["if (x) \x7b"] "# \x7d" []
    (by
      rintro (_ | ⟨line, first⟩) rest heq hne
      · exact absurd rfl hne
      · obtain ⟨rfl, hnil⟩ := List.cons.inj heq
        rw [(List.append_eq_nil_iff.mp hnil.symm).1]
        exact hfirst)
  have hclosed : ¬ 0 < bracesBehind .empty (["if (x) \x7b"] ++ ["# \x7d"]) := by decide +kernel
  have hentered := hread.trans (if_neg hclosed)
  refine (congrArg (fun result => result.1.map Exchange.prompt) hentered).trans ?_
  decide +kernel

/-- A quoted brace leaves no brace of a token open, yet the session asks for another line. -/
theorem asks_on_behind_quoted_brace :
    Scriptlet.openBraces (Lexer.tokenize .empty "\"\x7b\"") = 0 ∧
      (start .eval .empty).converse {} [.line "\"\x7b\""] =
        ([⟨">> ", ""⟩, ⟨".. ", "\nExiting Toy REPL.\n"⟩],
          (start .eval .empty).holding ["\"\x7b\""]) := by
  have hopen : Open ["\"\x7b\""] := open_nil.snoc (by decide +kernel)
  constructor
  · decide +kernel
  · exact @converse_takenIn {} (start .eval .empty) [] _ hopen []

end Session

end Scriptlet
