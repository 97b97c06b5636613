import Scriptlet.Proofs.Lex.Spans

/-!
The order of positions. A position is a line with a column, and positions are compared
line first. With each character of a text the position moves on, so tokens, which are at
the places where their spans start, have ever later positions, and the finishing token has
the last one.
-/

namespace Scriptlet

def Token.position (t : Token) : Nat × Nat :=
  (t.line, t.column)

def positionAt (text : String) (place : Nat) : Nat × Nat :=
  (lineAt text place, columnAt text place)

theorem lexLt_trans {p q r : Nat × Nat} (hpq : p.lexLt q) (hqr : q.lexLt r) : p.lexLt r := by
  unfold Prod.lexLt at *
  omega

/-- A newline leads to the next line, every other character to the next column. -/
theorem lexLt_positionAt_succ {text : String} {place : Nat} (h : place < text.length) :
    (positionAt text place).lexLt (positionAt text (place + 1)) := by
  have hstep := Reader.step_atPlace h
  have hline : lineAt text (place + 1) = (Reader.atPlace text place).step.line := by
    rw [hstep]
    rfl
  have hcolumn : columnAt text (place + 1) = (Reader.atPlace text place).step.column := by
    rw [hstep]
    rfl
  have hrest : text.toList.drop place ≠ [] := by
    rw [← List.length_pos_iff, List.length_drop, String.length_toList]
    omega
  obtain ⟨c, cs, hcs⟩ := List.exists_cons_of_ne_nil hrest
  unfold positionAt
  rw [hline, hcolumn]
  unfold Reader.step
  rw [Reader.rest_atPlace, hcs]
  simp only
  split
  · exact .inl (Nat.lt_succ_self _)
  · exact .inr ⟨rfl, Nat.lt_succ_self _⟩

/-- Of two places of a text the later one is on a later line, or further right on the same. -/
theorem lexLt_positionAt {text : String} {place later : Nat} (h : place < later)
    (hlater : later ≤ text.length) :
    (positionAt text place).lexLt (positionAt text later) := by
  induction later with
  | zero => exact absurd h (Nat.not_lt_zero _)
  | succ later ih =>
      have hsucc : (positionAt text later).lexLt (positionAt text (later + 1)) :=
        lexLt_positionAt_succ hlater
      rcases Nat.lt_or_eq_of_le (Nat.le_of_lt_succ h) with hlt | rfl
      · exact lexLt_trans (ih hlt (by omega)) hsucc
      · exact hsucc

namespace Lexer

variable {aliases : AliasTable} {text : String} {place : Nat}

theorem Spaced.ordered {spans : List (Nat × Nat)} {ts : List Token}
    (hread : List.Forall₂ (fun span t => t.ReadFrom aliases text span.1 span.2) spans ts)
    (hspaced : Spaced text place spans) :
    (∀ t ∈ ts, ∃ start, place ≤ start ∧ start < text.length ∧
      t.position = positionAt text start) ∧
    ts.Pairwise fun t u => t.position.lexLt u.position := by
  induction hread generalizing place with
  | nil => exact ⟨by simp, .nil⟩
  | @cons span t spans ts hfrom _ ih =>
      obtain ⟨hle, _, hspaced⟩ := hspaced
      obtain ⟨hplaces, hpairwise⟩ := ih hspaced
      have hposition : t.position = positionAt text span.1 :=
        Prod.ext hfrom.line hfrom.column
      have hstart := hfrom.start_lt
      have hstop := hfrom.stop_le
      constructor
      · intro u hu
        rcases List.mem_cons.mp hu with rfl | hu
        · exact ⟨span.1, hle, by omega, hposition⟩
        · obtain ⟨start, hbehind, hlt, heq⟩ := hplaces u hu
          exact ⟨start, by omega, hlt, heq⟩
      · refine List.pairwise_cons.mpr ⟨fun u hu => ?_, hpairwise⟩
        obtain ⟨start, hbehind, hlt, heq⟩ := hplaces u hu
        rw [hposition, heq]
        exact lexLt_positionAt (by omega) (Nat.le_of_lt hlt)

/-- The positions of a text's tokens, the finishing one last, increase. -/
theorem tokenize_ordered (aliases : AliasTable) (text : String) :
    (tokenize aliases text).Pairwise fun t u => t.position.lexLt u.position := by
  have hfuel : text.length - 0 < (Reader.ofString text).rest.length + 1 := by
    rw [Reader.ofString_eq, Reader.rest_atPlace, List.drop_zero, String.length_toList]
    omega
  obtain ⟨spans, ts, hgo, hread, hspaced⟩ :=
    tokens_go_spans aliases _ [] (Nat.zero_le _) hfuel
  obtain ⟨hplaces, hpairwise⟩ := hspaced.ordered hread
  unfold tokenize ofString tokens
  rw [Reader.ofString_eq] at hgo ⊢
  rw [hgo]
  refine List.pairwise_append.mpr ⟨hpairwise, List.pairwise_singleton _ _, fun t ht u hu => ?_⟩
  obtain rfl := List.mem_singleton.mp hu
  obtain ⟨start, _, hlt, heq⟩ := hplaces t ht
  rw [heq]
  exact lexLt_positionAt hlt (Nat.le_refl _)

end Lexer

end Scriptlet
