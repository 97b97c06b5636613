import Scriptlet.Alias.Config

/-!
The words that a group names. Splitting at commas gives the one way to put a text together
from pieces that hold no comma, and a group names the pieces that are not blank, without the
blanks around them, and whatever the groups in it name.
-/

namespace Scriptlet

namespace Text

variable {separator : Char} {piece : List Char}

theorem pieces_ne_nil (separator : Char) (text : List Char) : pieces separator text ≠ [] := by
  cases text with
  | nil => simp [pieces]
  | cons c cs =>
      unfold pieces
      split
      · simp
      · split <;> simp

theorem pieces_cons_of_ne {c : Char} (h : c ≠ separator) (cs : List Char) :
    ∃ first rest, pieces separator cs = first :: rest ∧
      pieces separator (c :: cs) = (c :: first) :: rest := by
  cases hcs : pieces separator cs with
  | nil => exact absurd hcs (pieces_ne_nil separator cs)
  | cons first rest => exact ⟨first, rest, rfl, by simp [pieces, h, hcs]⟩

theorem not_mem_of_mem_pieces {text : List Char} (h : piece ∈ pieces separator text) :
    separator ∉ piece := by
  induction text generalizing piece with
  | nil =>
      rw [List.mem_singleton.mp h]
      exact List.not_mem_nil
  | cons c cs ih =>
      by_cases hc : c = separator
      · simp only [pieces, hc, beq_self_eq_true, if_true, List.mem_cons] at h
        rcases h with rfl | hrest
        · exact List.not_mem_nil
        · exact ih hrest
      · obtain ⟨first, rest, hcs, heq⟩ := pieces_cons_of_ne hc cs
        rw [hcs] at ih
        rw [heq] at h
        rcases List.mem_cons.mp h with rfl | hrest
        · simpa [Ne.symm hc] using ih List.mem_cons_self
        · exact ih (List.mem_cons_of_mem _ hrest)

/-- Pieces put together with separators between them are the text. -/
theorem intercalate_pieces (separator : Char) (text : List Char) :
    [separator].intercalate (pieces separator text) = text := by
  induction text with
  | nil => rfl
  | cons c cs ih =>
      by_cases hc : c = separator
      · simp only [pieces, hc, beq_self_eq_true, if_true]
        rw [List.intercalate_cons_of_ne_nil (pieces_ne_nil _ _), ih]
        rfl
      · obtain ⟨first, rest, hcs, heq⟩ := pieces_cons_of_ne hc cs
        rw [heq, ← ih, hcs]
        cases rest <;> rfl

theorem pieces_append (h : separator ∉ piece) (text : List Char) :
    pieces separator (piece ++ separator :: text) = piece :: pieces separator text := by
  induction piece with
  | nil => simp [pieces]
  | cons c cs ih =>
      rw [List.mem_cons, not_or] at h
      simp [pieces, Ne.symm h.1, ih h.2]

theorem pieces_of_not_mem (h : separator ∉ piece) : pieces separator piece = [piece] := by
  induction piece with
  | nil => rfl
  | cons c cs ih =>
      rw [List.mem_cons, not_or] at h
      simp [pieces, Ne.symm h.1, ih h.2]

/-- There is no other way to put a text together from pieces without separators. -/
theorem pieces_intercalate {parts : List (List Char)} (hne : parts ≠ [])
    (h : ∀ part ∈ parts, separator ∉ part) :
    pieces separator ([separator].intercalate parts) = parts := by
  induction parts with
  | nil => exact absurd rfl hne
  | cons part parts ih =>
      rw [List.forall_mem_cons] at h
      cases parts with
      | nil =>
          rw [List.intercalate_singleton]
          exact pieces_of_not_mem h.1
      | cons next parts =>
          rw [List.intercalate_cons_cons, List.append_assoc, List.singleton_append,
            pieces_append h.1, ih (List.cons_ne_nil _ _) h.2]

/-- The pieces are those of the one way to put the text together from parts without
the separator. -/
theorem mem_pieces_iff {text : List Char} :
    piece ∈ pieces separator text ↔ ∃ parts, [separator].intercalate parts = text ∧
      (∀ part ∈ parts, separator ∉ part) ∧ piece ∈ parts := by
  constructor
  · intro h
    exact ⟨pieces separator text, intercalate_pieces separator text,
      fun _ => not_mem_of_mem_pieces, h⟩
  · rintro ⟨parts, rfl, hfree, hpiece⟩
    rwa [pieces_intercalate (List.ne_nil_of_mem hpiece) hfree]

end Text

namespace AliasGroup

/-- A group names a word: the word is what is left of a piece of a text between commas
without the blanks around it, or a group in a list names it. -/
inductive Mentions : AliasGroup → String → Prop where
  | words {text word : String} {parts : List (List Char)} {part : List Char}
      (hparts : [','].intercalate parts = text.toList) (hfree : ∀ p ∈ parts, ',' ∉ p)
      (hpart : part ∈ parts) (hword : word.toList = Text.trimChars part) (hne : word ≠ "") :
      Mentions (.words text) word
  | list {groups : List AliasGroup} {group : AliasGroup} {word : String}
      (hgroup : group ∈ groups) (h : Mentions group word) : Mentions (.list groups) word

variable {word : String}

/-- A word is what is left of a piece without its blanks, if anything is. -/
theorem mem_wordsOf_iff {text : String} :
    word ∈ wordsOf text ↔ word ≠ "" ∧
      ∃ part ∈ Text.pieces ',' text.toList, word.toList = Text.trimChars part := by
  simp only [wordsOf, List.mem_filterMap, List.mem_map]
  constructor
  · rintro ⟨_, ⟨part, hpart, rfl⟩, hword⟩
    split at hword
    · cases hword
    next hne =>
      obtain rfl := Option.some.inj hword
      refine ⟨?_, part, hpart, String.toList_ofList⟩
      simpa using hne
  · rintro ⟨hne, part, hpart, hword⟩
    refine ⟨_, ⟨part, hpart, rfl⟩, ?_⟩
    rw [← hword]
    simp [hne]

theorem mem_toWordsAll {groups : List AliasGroup} :
    word ∈ toWordsAll groups ↔ ∃ group ∈ groups, word ∈ group.toWords := by
  induction groups with
  | nil => simp [toWordsAll]
  | cons group groups ih => simp [toWordsAll, ih]

mutual

theorem mentions_of_mem (group : AliasGroup) (h : word ∈ group.toWords) :
    group.Mentions word := by
  cases group with
  | words text =>
      rw [toWords, mem_wordsOf_iff] at h
      obtain ⟨hne, part, hpart, hword⟩ := h
      obtain ⟨parts, hparts, hfree, hmem⟩ := Text.mem_pieces_iff.mp hpart
      exact .words hparts hfree hmem hword hne
  | list groups =>
      obtain ⟨group, hgroup, hmentions⟩ := mentions_of_memAll groups h
      exact .list hgroup hmentions
  | other value => cases h

theorem mentions_of_memAll (groups : List AliasGroup) (h : word ∈ toWordsAll groups) :
    ∃ group ∈ groups, group.Mentions word := by
  cases groups with
  | nil => cases h
  | cons group groups =>
      rw [toWordsAll, List.mem_append] at h
      rcases h with hfirst | hrest
      · exact ⟨group, List.mem_cons_self, mentions_of_mem group hfirst⟩
      · obtain ⟨other, hother, hmentions⟩ := mentions_of_memAll groups hrest
        exact ⟨other, List.mem_cons_of_mem _ hother, hmentions⟩

end

/-- The words read off a group are those that it names. -/
theorem mem_toWords_iff {group : AliasGroup} : word ∈ group.toWords ↔ group.Mentions word := by
  constructor
  · exact mentions_of_mem group
  · intro h
    induction h with
    | words hparts hfree hpart hword hne =>
        rw [toWords, mem_wordsOf_iff]
        exact ⟨hne, _, Text.mem_pieces_iff.mpr ⟨_, hparts, hfree, hpart⟩, hword⟩
    | list hgroup _ ih => exact mem_toWordsAll.mpr ⟨_, hgroup, ih⟩

end AliasGroup

end Scriptlet
