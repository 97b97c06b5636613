import Scriptlet.Proofs.Lex.Scan
import Scriptlet.Proofs.Text.Replace

/-!
Quoting and reading back. Escaping the characters of a text one by one comes to the same as one
pass over the whole text for each character that is escaped, the backslash first, since the other
passes write backslashes of their own. Wherever a quoted text stands it is read as one token whose
value is the text, and reading goes on right behind its closing quote. A newline is written as an
escape, so the quoted text takes one line.
-/

namespace Scriptlet

namespace Quoting

/-- The characters that are escaped. -/
def escaped : List Char :=
  ['\\', '"', '\n', '\t']

theorem mem_escaped_iff {c : Char} :
    c ∈ escaped ↔ c = '\\' ∨ c = '"' ∨ c = '\n' ∨ c = '\t' := by
  simp [escaped]

theorem escape_of_not_mem {c : Char} (h : c ∉ escaped) : escape c = [c] := by
  simp only [mem_escaped_iff, not_or] at h
  simp [escape, h]

/-- Escapes a text in four passes, one for each character that is escaped. -/
def escapeInTurn (text : String) : String :=
  (((text.replace '\\' "\\\\").replace '"' "\\\"").replace '\n' "\\n").replace '\t' "\\t"

/-- What the four passes make of one character. -/
def passesChar (c : Char) : List Char :=
  (((Text.replacedChar '\\' "\\\\" c).flatMap (Text.replacedChar '"' "\\\"")).flatMap
    (Text.replacedChar '\n' "\\n")).flatMap (Text.replacedChar '\t' "\\t")

/-- No pass touches what an earlier one has written. -/
theorem passesChar_eq_escape (c : Char) : passesChar c = escape c := by
  by_cases h : c ∈ escaped
  · rcases mem_escaped_iff.mp h with rfl | rfl | rfl | rfl <;> decide
  · rw [escape_of_not_mem h]
    simp only [mem_escaped_iff, not_or] at h
    simp [passesChar, Text.replacedChar, h]

theorem toList_escapeInTurn (text : String) :
    (escapeInTurn text).toList = text.toList.flatMap escape := by
  have hpasses : (escapeInTurn text).toList = text.toList.flatMap passesChar := by
    unfold escapeInTurn passesChar
    simp only [Text.toList_replace, List.flatMap_assoc]
  rw [hpasses, funext passesChar_eq_escape]

theorem quote_eq_escapeInTurn (text : String) :
    quote text = "\"" ++ escapeInTurn text ++ "\"" := by
  rw [← String.toList_inj, quote, String.toList_ofList, quoteChars, ← toList_escapeInTurn]
  simp

theorem newline_not_mem_escape (c : Char) : '\n' ∉ escape c := by
  by_cases h : c ∈ escaped
  · rcases mem_escaped_iff.mp h with rfl | rfl | rfl | rfl <;> decide
  · rw [escape_of_not_mem h, List.mem_singleton]
    rintro rfl
    exact h (by decide)

theorem newline_not_mem_quote (text : String) : '\n' ∉ (quote text).toList := by
  rw [quote, String.toList_ofList, quoteChars]
  simp [newline_not_mem_escape]

end Quoting

namespace Reader

variable {r : Reader} {following : List Char}

theorem step_inline {c : Char} (h : r.rest = c :: following) (hc : c ≠ '\n') :
    r.step = ⟨c :: r.past, following, r.position + 1, r.line, r.column + 1⟩ := by
  unfold step
  simp only [h, beq_iff_eq, if_neg hc]

/-- Characters of one line move the column and leave the line. -/
theorem skip_inline {cs : List Char} (h : r.rest = cs ++ following) (hcs : '\n' ∉ cs) :
    r.skip cs.length = ⟨cs.reverse ++ r.past, following, r.position + cs.length, r.line,
      r.column + cs.length⟩ := by
  induction cs generalizing r with
  | nil =>
      rw [List.nil_append] at h
      rw [← h]
      rfl
  | cons c cs ih =>
      rw [List.mem_cons, not_or] at hcs
      have hrest : r.rest = c :: (cs ++ following) := by rw [h, List.cons_append]
      have hstep := step_inline hrest (Ne.symm hcs.1)
      rw [List.length_cons, skip, ih (by rw [hstep]) hcs.2, hstep]
      simp [Nat.add_assoc, Nat.add_comm 1]

end Reader

namespace Lexer

variable {r : Reader} {following : List Char}

/-- Reading undoes quoting at every place of every source. The quoted form is the text after the
four passes, between double quotes; where it stands next, the next token is the text, and the
reader moves by just the length of the quoted form, on the same line, to what follows. -/
theorem next_undoes_quote (table : AliasTable) (v : String)
    (h : r.rest = (Quoting.quote v).toList ++ following) :
    Quoting.quote v = "\"" ++ Quoting.escapeInTurn v ++ "\"" ∧
      next table r = (⟨.text, v, r.line, r.column⟩,
        ⟨(Quoting.quote v).toList.reverse ++ r.past, following,
          r.position + (Quoting.quote v).length, r.line,
          r.column + (Quoting.quote v).length⟩) := by
  refine ⟨Quoting.quote_eq_escapeInTurn v, ?_⟩
  have hskip := Reader.skip_inline h (Quoting.newline_not_mem_quote v)
  rw [String.length_toList] at hskip
  rw [← hskip, ← String.length_toList]
  rw [Quoting.quote, String.toList_ofList] at h ⊢
  rw [next_quoted v.toList h, String.ofList_toList]

/-- Backslashes before a quote are written as five backslashes, and another quote may follow. -/
theorem next_undoes_quote_backslashes :
    (Reader.startAt "f(\"\\\\\\\\\\\"\\n'\"\"" 2 7 3).rest =
        (Quoting.quote "\\\\\"\n'").toList ++ ['"'] ∧
      next .empty (.startAt "f(\"\\\\\\\\\\\"\\n'\"\"" 2 7 3) =
        (⟨.text, "\\\\\"\n'", 7, 3⟩,
          .startAt "f(\"\\\\\\\\\\\"\\n'\"\"" 13 7 14) := by
  have hrest : (Reader.startAt "f(\"\\\\\\\\\\\"\\n'\"\"" 2 7 3).rest =
      (Quoting.quote "\\\\\"\n'").toList ++ ['"'] := by decide +kernel
  refine ⟨hrest, ?_⟩
  rw [(next_undoes_quote .empty _ hrest).2]
  decide +kernel

end Lexer

end Scriptlet
