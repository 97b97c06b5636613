import Scriptlet.Number.Integer

/-!
Numbers and the texts that write them. A natural number of the 64-bit range is
written in decimal digits, and reading those digits gives the number; a text of
digits of whatever script never gives a negative one.
-/

namespace Scriptlet

theorem digit_bounds {c : Char} (h : c.isDigit = true) : 48 ≤ c.toNat ∧ c.toNat ≤ 57 := by
  simpa [Char.isDigit, UInt32.le_iff_toNat_le] using h

theorem Text.decimalValue?_of_isDigit {c : Char} (h : c.isDigit = true) :
    decimalValue? c = some (c.toNat - 48) := by
  have hbounds := digit_bounds h
  have hascii : c.toNat < 128 := by omega
  simp [decimalValue?, hascii, hbounds]

namespace Numeral

theorem isMargin_of_isDigit {c : Char} (h : c.isDigit = true) : isMargin c = false := by
  have hbounds := digit_bounds h
  have hascii : c.toNat < 128 := by omega
  simp only [isMargin, hascii, if_true]
  simp
  omega

/-- No digit is a blank, so nothing is trimmed. -/
theorem trimMargin_of_digits {cs : List Char} (h : ∀ c ∈ cs, c.isDigit = true) :
    trimMargin cs = cs := by
  have hkeep (ds : List Char) (hds : ∀ c ∈ ds, c.isDigit = true) :
      ds.dropWhile isMargin = ds := by
    cases ds with
    | nil => rfl
    | cons d ds =>
        have hd := isMargin_of_isDigit (hds d (by simp))
        exact List.dropWhile_cons_of_neg (by simp [hd])
  unfold trimMargin
  rw [hkeep cs h, hkeep cs.reverse (by simpa using h), List.reverse_reverse]

theorem wellGrouped_of_digits {cs : List Char} (h : ∀ c ∈ cs, c.isDigit = true) :
    wellGrouped true cs = true := by
  induction cs with
  | nil => rfl
  | cons c cs ih =>
      have hdigit := h c (by simp)
      have hunderscore : c ≠ '_' := by
        rintro rfl
        exact absurd hdigit (by decide)
      have hvalue := Text.decimalValue?_of_isDigit hdigit
      simp [wellGrouped, hunderscore, hvalue, ih fun d hd => h d (by simp [hd])]

theorem filterMap_of_digits {cs : List Char} (h : ∀ c ∈ cs, c.isDigit = true) :
    cs.filterMap Text.decimalValue? = cs.map fun c => c.toNat - 48 := by
  induction cs with
  | nil => rfl
  | cons c cs ih =>
      rw [List.filterMap_cons_some (Text.decimalValue?_of_isDigit (h c (by simp))),
        ih fun d hd => h d (by simp [hd]), List.map_cons]

theorem natural?_of_digits {cs : List Char} (h : ∀ c ∈ cs, c.isDigit = true)
    (hnonempty : cs ≠ []) (hlength : cs.length ≤ maxDigits) :
    natural? cs = some (Nat.ofDigitChars 10 cs 0) := by
  have hgrouped : wellGrouped false cs = true := by
    cases cs with
    | nil => exact absurd rfl hnonempty
    | cons c cs =>
        have hall := wellGrouped_of_digits h
        simp only [wellGrouped] at hall ⊢
        split
        next hunderscore =>
          obtain rfl : c = '_' := by simpa using hunderscore
          exact absurd (h '_' (by simp)) (by decide)
        next hunderscore => simpa [hunderscore] using hall
  unfold natural?
  simp only [filterMap_of_digits h, Nat.ofDigitChars_eq_foldl, List.foldl_map, hgrouped]
  simp [hlength]

/-- Digits alone are read as the number they write, if there are not too many. -/
theorem integer?_of_digits {cs : List Char} (h : ∀ c ∈ cs, c.isDigit = true)
    (hnonempty : cs ≠ []) (hlength : cs.length ≤ maxDigits) :
    integer? (String.ofList cs) = some (Nat.ofDigitChars 10 cs 0 : Int) := by
  have hsign (c : Char) (hc : c.isDigit = false) : cs.head? ≠ some c := by
    intro hhead
    have hdigit := h c (List.mem_of_head? hhead)
    rw [hc] at hdigit
    cases hdigit
  unfold integer?
  rw [String.toList_ofList, trimMargin_of_digits h]
  split
  next => exact absurd rfl (hsign '-' (by decide))
  next => exact absurd rfl (hsign '+' (by decide))
  next => simp [natural?_of_digits h hnonempty hlength]

theorem toList_toString {n : Int} (h : 0 ≤ n) :
    (toString n).toList = Nat.toDigits 10 n.toNat := by
  obtain ⟨m, rfl⟩ := Int.eq_ofNat_of_zero_le h
  exact Nat.toList_repr

theorem isDigit_of_mem_toString {n : Int} (h : 0 ≤ n) {c : Char}
    (hc : c ∈ (toString n).toList) : c.isDigit = true := by
  rw [toList_toString h] at hc
  exact Nat.isDigit_of_mem_toDigits (by omega) (by omega) hc

/-- A number of the 64-bit range is read from the digits that write it. -/
theorem integer?_toString {n : Int} (hnat : 0 ≤ n) (hmaximum : n ≤ Int64.maximum) :
    integer? (toString n) = some n := by
  have hsmall : n.toNat < 10 ^ 19 := by
    have hbound : Int64.maximum < 10 ^ 19 := by decide
    omega
  have hshort : (Nat.toDigits 10 n.toNat).length ≤ 19 :=
    (Nat.length_toDigits_le_iff (by omega) (by omega)).mpr hsmall
  have hlong : 19 ≤ maxDigits := by decide
  have htext : toString n = String.ofList (Nat.toDigits 10 n.toNat) := by
    rw [← toList_toString hnat, String.ofList_toList]
  have hdigits (c : Char) (hc : c ∈ Nat.toDigits 10 n.toNat) : c.isDigit = true :=
    Nat.isDigit_of_mem_toDigits (by omega) (by omega) hc
  rw [htext, integer?_of_digits hdigits Nat.toDigits_ne_nil (by omega),
    Nat.ofDigitChars_ten_toDigits, Int.toNat_of_nonneg hnat]

theorem mem_of_mem_trimMargin {cs : List Char} {c : Char} (h : c ∈ trimMargin cs) : c ∈ cs := by
  unfold trimMargin at h
  rw [List.mem_reverse] at h
  have hinner := List.dropWhile_subset _ h
  rw [List.mem_reverse] at hinner
  exact List.dropWhile_subset _ hinner

/-- It takes a minus sign to read a negative number. -/
theorem integer?_nonneg {text : String} {n : Int} (h : integer? text = some n)
    (hdigits : ∀ c ∈ text.toList, Text.isDigit c = true) : 0 ≤ n := by
  have hread {cs : List Char} (hcs : ((natural? cs).bind fun m => some (m : Int)) = some n) :
      0 ≤ n := by
    obtain ⟨m, _, hm⟩ := Option.bind_eq_some_iff.mp hcs
    rw [← Option.some.inj hm]
    exact Int.natCast_nonneg m
  unfold integer? at h
  split at h
  next hsign =>
    have hminus : '-' ∈ text.toList := mem_of_mem_trimMargin (by rw [hsign]; simp)
    exact absurd (hdigits '-' hminus) (by decide)
  next => exact hread (by simpa using h)
  next => exact hread (by simpa using h)

end Numeral

end Scriptlet
