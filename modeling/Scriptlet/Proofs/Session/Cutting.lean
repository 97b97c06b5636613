import Scriptlet.Session.Basic

/-!
How lines are cut into texts. A text goes on with the next line as long as braces are open behind
it, so the lines of a text are the fewest behind which none is. There is one way to cut lines into
texts and an unfinished rest, and a session reads them in this way.
-/

namespace Scriptlet.Session

/-- Braces that lines open less those that they close. -/
def openBraces (lines : List String) : Int :=
  lines.foldl (fun braces line => braces + braceBalance line) 0

theorem openBraces_snoc (lines : List String) (line : String) :
    openBraces (lines ++ [line]) = openBraces lines + braceBalance line := by
  simp [openBraces]

/-- Braces are open behind every one of the lines. -/
def Open (lines : List String) : Prop :=
  ∀ first rest, lines = first ++ rest → first ≠ [] → 0 < openBraces first

/-- Braces are open behind every line but the last. -/
inductive Whole : List String → Prop where
  | intro {lines : List String} {line : String} (hopen : Open lines)
      (hclosed : openBraces (lines ++ [line]) ≤ 0) : Whole (lines ++ [line])

/-- Lines, cut into those of whole texts and a rest. -/
inductive Cut : List String → List (List String) → List String → Prop where
  | rest {lines : List String} (hopen : Open lines) : Cut lines [] lines
  | whole {chunk lines : List String} {chunks : List (List String)} {rest : List String}
      (hchunk : Whole chunk) (h : Cut lines chunks rest) :
      Cut (chunk ++ lines) (chunk :: chunks) rest

section Cut

variable {chunk lines : List String}

theorem open_nil : Open [] := by
  rintro first rest heq hne
  exact absurd (List.append_eq_nil_iff.mp heq.symm).1 hne

theorem Open.snoc (h : Open lines) {line : String} (hline : 0 < openBraces (lines ++ [line])) :
    Open (lines ++ [line]) := by
  intro first rest heq hne
  rcases List.eq_nil_or_concat rest with rfl | ⟨others, last, rfl⟩
  · rwa [← List.append_nil first, ← heq]
  · rw [List.concat_eq_append, ← List.append_assoc] at heq
    exact h first others (List.append_inj_left' heq rfl) hne

theorem Whole.ne_nil (h : Whole chunk) : chunk ≠ [] := by
  cases h
  simp

theorem Whole.closed (h : Whole chunk) : openBraces chunk ≤ 0 := by
  cases h with
  | intro _ hclosed => exact hclosed

/-- A whole text does not begin open lines. -/
theorem Whole.not_open (h : Whole chunk) : ¬ Open (chunk ++ lines) := by
  intro hopen
  have hpos := hopen chunk lines rfl h.ne_nil
  have hclosed := h.closed
  omega

/-- No whole text begins another. -/
theorem Whole.eq_nil_of_append (h : Whole chunk) {more : List String}
    (hmore : Whole (chunk ++ more)) : more = [] := by
  rcases List.eq_nil_or_concat more with rfl | ⟨others, last, rfl⟩
  · rfl
  · rw [List.concat_eq_append, ← List.append_assoc] at hmore
    generalize hlong : chunk ++ others ++ [last] = long at hmore
    cases hmore with
    | intro hopen hclosed =>
        rw [← List.append_inj_left' hlong rfl] at hopen
        exact absurd hopen h.not_open

theorem Whole.eq_of_append {other more : List String} (h : Whole chunk) (hother : Whole other)
    (heq : chunk ++ lines = other ++ more) : chunk = other ∧ lines = more := by
  rcases List.append_eq_append_iff.mp heq with ⟨extra, rfl, rfl⟩ | ⟨extra, rfl, rfl⟩
  · simp [h.eq_nil_of_append hother]
  · simp [hother.eq_nil_of_append h]

/-- Lines can be cut into whole texts in one way only. -/
theorem Cut.unique {chunks others : List (List String)} {rest tail : List String}
    (h : Cut lines chunks rest) (hother : Cut lines others tail) :
    others = chunks ∧ tail = rest := by
  induction h generalizing others with
  | rest hopen =>
      cases hother with
      | rest => exact ⟨rfl, rfl⟩
      | whole hchunk => exact absurd hopen hchunk.not_open
  | @whole chunk lines chunks rest hchunk _ ih =>
      generalize hlines : chunk ++ lines = all at hother
      cases hother with
      | rest hopen =>
          rw [← hlines] at hopen
          exact absurd hopen hchunk.not_open
      | whole hfirst hrest =>
          obtain ⟨rfl, rfl⟩ := hchunk.eq_of_append hfirst hlines
          obtain ⟨rfl, rfl⟩ := ih hrest
          exact ⟨rfl, rfl⟩

/-- Lines that go on with open ones can be cut. -/
theorem exists_cut {held : List String} (h : Open held) (lines : List String) :
    ∃ chunks rest, Cut (held ++ lines) chunks rest := by
  induction lines generalizing held with
  | nil =>
      rw [List.append_nil]
      exact ⟨[], held, .rest h⟩
  | cons line lines ih =>
      rw [List.append_cons]
      by_cases hline : 0 < openBraces (held ++ [line])
      · exact ih (h.snoc hline)
      · obtain ⟨chunks, rest, hcut⟩ := ih open_nil
        exact ⟨_, rest, .whole (.intro h (Int.not_lt.mp hline)) hcut⟩

end Cut

/-- The text that lines make. -/
def wholeText (chunk : List String) : String :=
  Text.trim ("\n".intercalate chunk)

/-- A session in the middle of a text. -/
def holding (s : Session) (lines : List String) : Session :=
  { s with pending := lines.reverse, balance := openBraces lines }

variable (limits : Limits) (s : Session)

/-- A line that leaves braces open is kept, and nothing is said. -/
theorem feed_open {held : List String} {line : String} (h : 0 < openBraces (held ++ [line])) :
    (s.holding held).feed limits line = ⟨s.holding (held ++ [line]), "", false⟩ := by
  have hbalance := openBraces_snoc held line
  unfold feed
  rw [if_pos (by show 0 < openBraces held + braceBalance line; omega)]
  simp [holding, hbalance]

/-- A line that leaves none open ends a text, which is entered. -/
theorem feed_closed {held : List String} {line : String}
    (h : openBraces (held ++ [line]) ≤ 0) :
    (s.holding held).feed limits line =
      (s.holding []).enter limits (wholeText (held ++ [line])) := by
  have hbalance := openBraces_snoc held line
  unfold feed
  rw [if_neg (by show ¬ 0 < openBraces held + braceBalance line; omega)]
  simp [holding, wholeText, openBraces]

theorem converse_line (line : String) (inputs : List Input) :
    s.converse limits (.line line :: inputs) =
      let reply := s.feed limits line
      let exchange : Exchange := ⟨s.prompt, reply.output⟩
      if reply.finished then ([exchange], reply.session)
      else (exchange :: (reply.session.converse limits inputs).1,
        (reply.session.converse limits inputs).2) := by
  rw [converse]

/-- As long as braces are open nothing but lines is taken in. -/
theorem converse_open {held lines : List String} (h : Open (held ++ lines)) :
    ∃ exchanges : List Exchange, exchanges.length = lines.length ∧ ∀ more,
      (s.holding held).converse limits (lines.map .line ++ more) =
        (exchanges ++ ((s.holding (held ++ lines)).converse limits more).1,
          ((s.holding (held ++ lines)).converse limits more).2) := by
  induction lines generalizing held with
  | nil =>
      refine ⟨[], rfl, ?_⟩
      intro more
      rw [List.append_nil]
      rfl
  | cons line lines ih =>
      rw [List.append_cons] at h
      have hline : 0 < openBraces (held ++ [line]) := h _ _ rfl (by simp)
      obtain ⟨exchanges, hlength, hrest⟩ := ih h
      refine ⟨⟨(s.holding held).prompt, ""⟩ :: exchanges, congrArg (· + 1) hlength, ?_⟩
      intro more
      rw [List.map_cons, List.cons_append, converse_line, feed_open limits s hline]
      simp only [hrest more, List.append_cons held line lines]
      rfl

/-- A whole text is handled, and the session goes on unless that has ended it. -/
theorem converse_whole {chunk : List String} (h : Whole chunk) :
    ∃ exchanges : List Exchange, exchanges.length = chunk.length ∧ ∀ more,
      (s.holding []).converse limits (chunk.map .line ++ more) =
        let reply := (s.holding []).enter limits (wholeText chunk)
        if reply.finished then (exchanges, reply.session)
        else (exchanges ++ (reply.session.converse limits more).1,
          (reply.session.converse limits more).2) := by
  cases h with
  | @intro lines line hopen hclosed =>
      obtain ⟨exchanges, hlength, hopened⟩ :=
        converse_open limits s (show Open ([] ++ lines) from hopen)
      refine ⟨exchanges ++ [⟨(s.holding lines).prompt,
        ((s.holding []).enter limits (wholeText (lines ++ [line]))).output⟩],
        by simp [hlength], ?_⟩
      intro more
      rw [List.map_append, List.append_assoc, hopened, List.nil_append, List.map_singleton,
        List.singleton_append, converse_line, feed_closed limits s hclosed]
      simp only
      split
      · rfl
      · simp

end Scriptlet.Session
