/-!
Replacing a character all over a text. The text is searched from its start: each place
where the character stands gives the replacement, and each stretch without it is kept.
Character by character this is one substitution, made everywhere at once.
-/

namespace Scriptlet.Text

open String.Slice.Pattern String.Slice.Pattern.Model

/-- What a character becomes when every `target` is replaced. -/
def replacedChar (target : Char) (written : String) (c : Char) : List Char :=
  if c = target then written.toList else [c]

theorem flatMap_replacedChar_of_not_mem {target : Char} {cs : List Char} (h : target ∉ cs)
    (written : String) : cs.flatMap (replacedChar target written) = cs := by
  induction cs with
  | nil => rfl
  | cons c cs ih =>
      rw [List.mem_cons, not_or] at h
      rw [List.flatMap_cons, ih h.2, replacedChar, if_neg (Ne.symm h.1)]
      rfl

section Search

variable {s : String.Slice} {target : Char} {before stretch following : String}

/-- A stretch that the search passes by does not hold what is searched. -/
theorem not_mem_of_no_match {start stop : s.Pos}
    (hstart : start.Splits before (stretch ++ following))
    (hstop : stop.Splits (before ++ stretch) following)
    (hnone : ∀ place, start ≤ place → place < stop → ¬ MatchesAt target place) :
    target ∉ stretch.toList := by
  intro hmem
  obtain ⟨front, back, hcut⟩ := List.append_of_mem hmem
  have hstretch : stretch =
      String.ofList front ++ (String.singleton target ++ String.ofList back) := by
    rw [← String.toList_inj]
    simp [hcut]
  have hcopy : s.copy = (before ++ String.ofList front) ++
      (String.singleton target ++ (String.ofList back ++ following)) := by
    rw [hstart.eq_append, hstretch]
    simp only [String.append_assoc]
  -- the place right before the target lies in the stretch
  have hplace := String.Slice.Pos.splits_ofEqAppend hcopy
  have hle := (hstart.le_iff_exists_eq_append hplace).mpr
    ⟨String.ofList front, rfl, by rw [hstretch]; simp only [String.append_assoc]⟩
  have hlt := (hplace.lt_iff_exists_eq_append hstop).mpr
    ⟨String.singleton target ++ String.ofList back, by simp,
      by rw [hstretch, String.append_assoc], by rw [String.append_assoc]⟩
  exact hnone _ hle hlt (Char.matchesAt_iff_splits.mpr ⟨_, _, hplace⟩)

/-- From a place on, the steps of a search write down the rest of the text with the
replacements in it. -/
theorem toList_foldl_search {place : s.Pos} {steps : List (SearchStep s)}
    (h : IsValidSearchFrom target place steps) (hplace : place.Splits before following)
    (written done : String) :
    (steps.foldl (fun
      | done, .matched _ _ => done ++ written.toSlice
      | done, .rejected start stop => done ++ s.slice! start stop) done).toList =
      done.toList ++ following.toList.flatMap (replacedChar target written) := by
  induction h generalizing before following done with
  | endPos =>
      have hnil : following = "" := (String.Slice.splits_endPos_iff.mp hplace).2
      simp [hnil]
  | matched hmatch _ ih =>
      obtain ⟨hend, rfl, rfl⟩ := Char.isLongestMatchAt_iff.mp hmatch
      obtain ⟨following, rfl⟩ := hplace.exists_eq_singleton_append hend
      rw [List.foldl_cons, ih hplace.next]
      simp [replacedChar]
  | @mismatched steps start stop hlt hnone _ ih =>
      obtain ⟨stretch, hbefore, rfl⟩ :=
        (hplace.le_iff_exists_eq_append stop.splits).mp (Std.le_of_lt hlt)
      have hstop := stop.splits
      rw [hbefore] at hstop
      have hslice : (s.slice! start stop).copy = stretch := by
        obtain ⟨hle, hcopy⟩ :=
          String.Slice.copy_slice_eq_iff_splits.mpr ⟨_, _, hplace, hstop⟩
        rw [← String.Slice.slice_eq_slice! (h := hle), hcopy]
      have habsent := not_mem_of_no_match hplace hstop hnone
      rw [List.foldl_cons, ih hstop, String.toList_append, List.flatMap_append,
        flatMap_replacedChar_of_not_mem habsent, ← List.append_assoc, ← hslice]
      simp

end Search

/-- Replacing a character in a text substitutes it everywhere and leaves all else. -/
theorem toList_replace (s : String) (target : Char) (written : String) :
    (s.replace target written).toList =
      s.toList.flatMap (replacedChar target written) := by
  have hsearch : IsValidSearchFrom target s.toSlice.startPos
      (ToForwardSearcher.toSearcher target s.toSlice).toList :=
    LawfulToForwardSearcherModel.isValidSearchFrom_toList s.toSlice
  have hstart : s.toSlice.startPos.Splits "" s := by simp
  unfold String.replace String.Slice.replace
  rw [← Std.Iter.foldl_toList]
  exact toList_foldl_search hsearch hstart written ""

end Scriptlet.Text
