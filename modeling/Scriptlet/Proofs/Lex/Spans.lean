import Mathlib.Data.List.Forall2
import Scriptlet.Proofs.Lex.Checked

/-!
Where tokens stand. A place of a text lies before one of its characters or at its end, and
has a line and a column. The lexer always stands at a place: taking a character leads from
one place to the next. So every token has a span of places whose characters it was read
from, it says where that span starts, and between the spans there is nothing but layout.
-/

namespace Scriptlet

/-- The line of a place, counted from one. -/
def lineAt (text : String) (place : Nat) : Nat :=
  1 + (text.toList.take place).count '\n'

/-- The column of a place: its distance from the last newline before it, counted from one. -/
def columnAt (text : String) (place : Nat) : Nat :=
  1 + ((text.toList.take place).reverse.takeWhile (· != '\n')).length

namespace Reader

/-- The reader that stands at a place. -/
def atPlace (text : String) (place : Nat) : Reader :=
  startAt text place (lineAt text place) (columnAt text place)

variable {text : String} {place : Nat}

theorem ofString_eq (text : String) : ofString text = atPlace text 0 := by
  simp [ofString, atPlace, startAt, lineAt, columnAt]

theorem rest_atPlace (text : String) (place : Nat) :
    (atPlace text place).rest = text.toList.drop place :=
  rfl

/-- Taking a character leads to the next place. -/
theorem step_atPlace (h : place < text.length) :
    (atPlace text place).step = atPlace text (place + 1) := by
  rw [← String.length_toList] at h
  have hdrop : text.toList.drop place =
      text.toList[place] :: text.toList.drop (place + 1) := List.drop_eq_getElem_cons h
  have htake : text.toList.take (place + 1) =
      text.toList.take place ++ [text.toList[place]] := List.take_succ_eq_append_getElem h
  generalize text.toList[place] = c at hdrop htake
  unfold step
  simp only [rest_atPlace, hdrop]
  simp only [atPlace, startAt, lineAt, columnAt, htake, List.count_append, List.reverse_append,
    List.reverse_singleton, List.singleton_append]
  by_cases hnewline : c = '\n'
  · subst hnewline
    rfl
  · have hother : (c == '\n') = false := beq_eq_false_iff_ne.mpr hnewline
    have hrun : (c != '\n') = true := bne_iff_ne.mpr hnewline
    simp only [hother, Bool.false_eq_true, if_false, List.takeWhile_cons, hrun, if_true,
      List.length_cons, List.count_singleton, Nat.add_zero, Nat.add_assoc]

/-- Skipping characters and counting lines and columns up to the new place come to the same. -/
theorem skip_atPlace {n : Nat} (h : place + n ≤ text.length) :
    (atPlace text place).skip n = atPlace text (place + n) := by
  induction n generalizing place with
  | zero => rfl
  | succ n ih =>
      unfold skip
      rw [step_atPlace (by omega), ih (by omega), Nat.add_right_comm, Nat.add_assoc]

end Reader

namespace Lexer

/-- Nothing but blanks and comments, before what follows. A comment runs to a newline or to
the end of the text. -/
inductive Layout (following : List Char) : List Char → Prop where
  | nil : Layout following []
  | blank {c : Char} {cs : List Char} (hblank : Text.isBlank c = true)
      (h : Layout following cs) : Layout following (c :: cs)
  | comment {inner cs : List Char} (hinner : '\n' ∉ inner) (h : Layout following cs) :
      Layout following ('#' :: (inner ++ '\n' :: cs))
  | lastComment {inner : List Char} (hinner : '\n' ∉ inner) (hend : following = []) :
      Layout following ('#' :: inner)

/-- A comment without its first character, and layout behind it. -/
inductive Commented (following : List Char) : List Char → Prop where
  | line {inner cs : List Char} (hinner : '\n' ∉ inner) (h : Layout following cs) :
      Commented following (inner ++ '\n' :: cs)
  | last {inner : List Char} (hinner : '\n' ∉ inner) (hend : following = []) :
      Commented following inner

variable {following cs : List Char}

theorem Commented.layout (h : Commented following cs) : Layout following ('#' :: cs) := by
  cases h with
  | line hinner h => exact .comment hinner h
  | last hinner hend => exact .lastComment hinner hend

theorem Commented.cons {c : Char} (hc : c ≠ '\n') (h : Commented following cs) :
    Commented following (c :: cs) := by
  have hother {inner : List Char} (hinner : '\n' ∉ inner) : '\n' ∉ c :: inner := by
    rw [List.mem_cons, not_or]
    exact ⟨hc.symm, hinner⟩
  cases h with
  | line hinner h => exact .line (hother hinner) h
  | last hinner hend => exact .last (hother hinner) hend

/-- What is skipped is layout; inside of a comment, it is the rest of that and layout. -/
theorem layoutLength_go_layout (cs : List Char) :
    Layout (cs.drop (layoutLength.go false cs 0)) (cs.take (layoutLength.go false cs 0)) ∧
      Commented (cs.drop (layoutLength.go true cs 0)) (cs.take (layoutLength.go true cs 0)) := by
  induction cs with
  | nil => exact ⟨.nil, .last List.not_mem_nil rfl⟩
  | cons c cs ih =>
      obtain ⟨hlayout, hcomment⟩ := ih
      constructor
      · simp only [layoutLength.go]
        split
        next hblank =>
          rw [layoutLength_go]
          exact .blank hblank hlayout
        next =>
          split
          next hstart =>
            obtain rfl : c = '#' := by simpa using hstart
            rw [layoutLength_go]
            exact hcomment.layout
          next => exact .nil
      · simp only [layoutLength.go]
        rw [layoutLength_go]
        by_cases hnewline : c = '\n'
        · subst hnewline
          show Commented _ ([] ++ '\n' :: _)
          exact .line List.not_mem_nil hlayout
        · rw [bne_iff_ne.mpr hnewline]
          exact hcomment.cons hnewline

end Lexer

namespace Token

/-- The token was read from the characters between two places of the text. -/
structure ReadFrom (aliases : AliasTable) (text : String) (start stop : Nat) (t : Token) :
    Prop where
  /-- At the first place the lexer gives the token, and then it stands at the second. -/
  reads : Lexer.readToken aliases (.atPlace text start) = (t, .atPlace text stop)
  start_lt : start < stop
  stop_le : stop ≤ text.length
  kind_ne : t.kind ≠ .finish
  line : t.line = lineAt text start
  column : t.column = columnAt text start
  value : t.kind ≠ .text → t.value.toList = text.toList.extract start stop
  lexeme : t.Lexeme (text.toList.extract start stop) (text.toList.drop stop)

end Token

namespace Lexer

/-- From the place on there is nothing but layout between the spans and behind them. -/
def Spaced (text : String) : Nat → List (Nat × Nat) → Prop
  | place, [] => Layout [] (text.toList.drop place)
  | place, (start, stop) :: spans =>
    place ≤ start ∧ Layout (text.toList.drop start) (text.toList.extract place start) ∧
      Spaced text stop spans

variable {aliases : AliasTable} {text : String} {place : Nat}

theorem Reads.readFrom {n : Nat} {t : Token} (h : Reads aliases (.atPlace text place) t n) :
    t.ReadFrom aliases text place (place + n) := by
  have hle : n ≤ text.length - place := by
    have hle := h.le
    rwa [Reader.rest_atPlace, List.length_drop, String.length_toList] at hle
  have hpos := h.pos
  have hextract : text.toList.extract place (place + n) = (text.toList.drop place).take n := by
    rw [List.extract_eq_take_drop, Nat.add_sub_cancel_left]
  have hlexeme := h.lexeme
  rw [Reader.rest_atPlace, List.drop_drop, ← hextract] at hlexeme
  constructor
  · rw [h.result, Reader.skip_atPlace (by omega)]
  · omega
  · omega
  · intro hkind
    unfold Token.Lexeme at hlexeme
    rwa [hkind] at hlexeme
  · exact h.line
  · exact h.column
  · rw [hextract]
    exact h.value
  · exact hlexeme

/-- Skipping layout leads to a place. -/
theorem skipLayout_atPlace (hplace : place ≤ text.length) :
    ∃ start, skipLayout (.atPlace text place) = .atPlace text start ∧ place ≤ start ∧
      start ≤ text.length ∧
      Layout (text.toList.drop start) (text.toList.extract place start) := by
  have hlength : layoutLength (text.toList.drop place) ≤ (text.toList.drop place).length :=
    layoutLength_go_le false _
  rw [List.length_drop, String.length_toList] at hlength
  have hstop : place + layoutLength (text.toList.drop place) ≤ text.length := by omega
  have hlayout := (layoutLength_go_layout (text.toList.drop place)).1
  refine ⟨_, Reader.skip_atPlace hstop, Nat.le_add_right _ _, hstop, ?_⟩
  rw [List.extract_eq_take_drop, Nat.add_sub_cancel_left, ← List.drop_drop]
  exact hlayout

theorem tokens_go_spans (aliases : AliasTable) (fuel : Nat) (read : List Token)
    (hplace : place ≤ text.length) (hfuel : text.length - place < fuel) :
    ∃ spans ts, tokens.go aliases fuel (.atPlace text place) read =
        (read.reverse ++ ts, .finish (lineAt text text.length) (columnAt text text.length),
          .atPlace text text.length) ∧
      List.Forall₂ (fun span t => t.ReadFrom aliases text span.1 span.2) spans ts ∧
      Spaced text place spans := by
  induction fuel generalizing place read with
  | zero => exact absurd hfuel (Nat.not_lt_zero _)
  | succ fuel ih =>
      obtain ⟨start, hskip, hle, hstart, hlayout⟩ := skipLayout_atPlace hplace
      unfold tokens.go next
      rw [hskip]
      rcases Nat.eq_or_lt_of_le hstart with rfl | hlt
      · have hrest : (Reader.atPlace text text.length).rest = [] := by
          rw [Reader.rest_atPlace, ← String.length_toList, List.drop_length]
        have hread : readToken aliases (.atPlace text text.length) =
            (.finish (lineAt text text.length) (columnAt text text.length),
              .atPlace text text.length) := by
          unfold readToken
          rw [hrest]
          rfl
        have hextract : text.toList.extract place text.length = text.toList.drop place := by
          rw [List.extract_eq_take_drop, ← String.length_toList, ← List.length_drop,
            List.take_length]
        rw [← Reader.rest_atPlace, hrest, hextract] at hlayout
        refine ⟨[], [], ?_, .nil, hlayout⟩
        simp [hread, Token.finish]
      · have hrest : (Reader.atPlace text start).rest ≠ [] := by
          rw [Reader.rest_atPlace, ← List.length_pos_iff, List.length_drop,
            String.length_toList]
          omega
        obtain ⟨t, n, hreads⟩ := exists_reads aliases hrest
        have hfrom := hreads.readFrom
        have hstop := hfrom.stop_le
        have hpos := hreads.pos
        obtain ⟨spans, ts, hgo, hforall, hspaced⟩ :=
          ih (t :: read) hstop (by omega)
        refine ⟨(start, start + n) :: spans, t :: ts, ?_, .cons hfrom hforall, hle, hlayout,
          hspaced⟩
        simp only [hfrom.reads, hfrom.kind_ne, if_false, hgo, List.reverse_cons,
          List.append_assoc, List.singleton_append]

/-- The lexer accounts for every character of a text. It comes to an end without asking for
a character that is not there. Its last token finishes and is at the end of the text, and no
other one finishes. Each of the others was read from a span of the text, is at the place
where that starts, has its characters for its value unless it is a quoted text, and is as
long as it can be; around the spans there is nothing but layout. -/
theorem tokenize_spans (aliases : AliasTable) (text : String) :
    (∀ limit, text.length < limit →
      Checked.tokenize limit aliases text = .ok (some (tokenize aliases text))) ∧
    ∃ spans ts, tokenize aliases text =
        ts ++ [.finish (lineAt text text.length) (columnAt text text.length)] ∧
      List.Forall₂ (fun span t => t.ReadFrom aliases text span.1 span.2) spans ts ∧
      Spaced text 0 spans := by
  constructor
  · exact fun limit hlimit => Checked.tokenize_eq aliases text hlimit
  · have hfuel : text.length - 0 < (Reader.ofString text).rest.length + 1 := by
      rw [Reader.ofString_eq, Reader.rest_atPlace, List.drop_zero, String.length_toList]
      omega
    obtain ⟨spans, ts, hgo, hforall, hspaced⟩ :=
      tokens_go_spans aliases _ [] (Nat.zero_le _) hfuel
    refine ⟨spans, ts, ?_, hforall, hspaced⟩
    unfold tokenize ofString tokens
    rw [Reader.ofString_eq] at hgo ⊢
    rw [hgo]
    rfl

/-- A comment, a symbol of two characters and a quoted text over two lines. -/
theorem tokenize_spans_lines :
    Checked.tokenize 20 .empty "#c\nx != 'y\nz'" =
      .ok (some [⟨.ident, "x", 2, 1⟩, ⟨.symbol .notEqual, "!=", 2, 3⟩, ⟨.text, "y\nz", 2, 6⟩,
        .finish 3 3]) := by
  rw [(tokenize_spans .empty _).1 20 (by decide)]
  decide +kernel

end Lexer

end Scriptlet
