import Scriptlet.Proofs.Eval.Yield
import Scriptlet.Proofs.Tree.Literals

/-!
Values whose integers lie in the 64-bit range. Arithmetic wraps, and everything else that gives
an integer gives one that it was given, with one exception: a length is as large as the text or
the array is long.
-/

namespace Scriptlet

def Key.Ranged : Key → Prop
  | .integer n => Int64.InRange n
  | _ => True

namespace Value

/-- The integers of a value lie in the 64-bit range, apart from those in what it holds: the value
itself, the keys of a hash, the literals in the tree of a function. -/
def HasRange : Value → Prop
  | .integer n => Int64.InRange n
  | .hash _ pairs => ∀ pair ∈ pairs, pair.1.Ranged
  | .function _ _ body _ => body.Ranged
  | _ => True

/-- All integers in a value lie in the 64-bit range. -/
def Ranged (v : Value) : Prop :=
  v.Every HasRange

/-- The length of a text or an array. -/
def length? : Value → Option Nat
  | .text s => some s.length
  | .array _ elements => some elements.length
  | _ => none

/-- No text and no array in a value is longer than the largest integer. -/
def Short (v : Value) : Prop :=
  v.Every fun u => ∀ n ∈ u.length?, (n : Int) ≤ Int64.maximum

variable {v : Value}

theorem Ranged.of_parts (h : v.HasRange) (hparts : v.parts = []) : v.Ranged := by
  apply Every.intro h
  rw [hparts]
  exact nofun

theorem ranged_null : Ranged .null := .of_parts trivial rfl

theorem ranged_error (reason : RuntimeError) : Ranged (.error reason) := .of_parts trivial rfl

theorem Ranged.getD {found : Option Value} (h : ∀ v ∈ found, v.Ranged) :
    (found.getD .null).Ranged := by
  cases found with
  | none => exact ranged_null
  | some v => exact h v rfl

/-- The key of an integer is the integer. -/
theorem Ranged.key (h : v.Ranged) {key : Key} (hkey : v.key? = some key) : key.Ranged := by
  cases v with
  | integer | boolean | text =>
      cases hkey
      exact h.here
  | _ => cases hkey

theorem hasRange_unary (h : v.HasRange) (operator : String) : (v.unary operator).HasRange := by
  unfold unary
  split
  · trivial
  · exact Int64.inRange_wrap _
  · exact h
  · trivial

theorem hasRange_integerBinary (operator : String) (a b : Int) :
    (integerBinary operator a b).HasRange := by
  unfold integerBinary
  split
  case h_4 =>
      split
      · exact Int64.inRange_wrap _
      · trivial
  all_goals first | exact Int64.inRange_wrap _ | trivial

theorem hasRange_textBinary (operator : String) (a b : String) :
    (textBinary operator a b).HasRange := by
  unfold textBinary
  split <;> trivial

theorem hasRange_otherBinary (operator : String) (left right : Value) :
    (otherBinary operator left right).HasRange := by
  unfold otherBinary
  split
  · trivial
  split
  · trivial
  split
  · trivial
  split <;> trivial

/-- An operator wraps what it computes. -/
theorem Ranged.unary (h : v.Ranged) (operator : String) : (v.unary operator).Ranged :=
  .of_parts (hasRange_unary h.here operator) (parts_of_number? (number?_unary operator v))

/-- So do those with two operands, whatever these are. -/
theorem ranged_binary (left : Value) (operator : String) (right : Value) :
    (left.binary operator right).Ranged := by
  apply Ranged.of_parts _ (parts_of_number? (number?_binary operator left right))
  unfold binary
  split
  · exact hasRange_integerBinary operator _ _
  · exact hasRange_textBinary operator _ _
  · exact hasRange_otherBinary operator _ _

theorem Ranged.index (h : v.Ranged) (place : Value) : (v.index place).Ranged := by
  unfold Value.index
  split
  · split
    · exact .getD fun u hu => h.part (List.mem_of_getElem? hu)
    · exact ranged_null
  · split
    · apply Ranged.getD
      intro u hu
      obtain ⟨before, after, heq, _⟩ := List.lookup_eq_some_iff.mp hu
      apply h.part
      rw [heq]
      exact mem_parts_hash (List.mem_append_right before List.mem_cons_self)
    · exact ranged_error _
  · exact ranged_error _

end Value

namespace Builtin

variable {arguments : List Value}

/-- A length is in range because the text or array is short. -/
theorem ranged_length (h : ∀ v ∈ arguments, v.Short) : (length arguments).Ranged := by
  have hlength {v : Value} {n : Nat} (hv : v.Short) (hn : v.length? = some n) :
      (Value.integer n).Ranged :=
    .of_parts (Int64.inRange_of_nonneg (Int.natCast_nonneg n) (hv.here n hn)) rfl
  unfold length
  split
  · exact hlength (h _ List.mem_cons_self) rfl
  · exact hlength (h _ List.mem_cons_self) rfl
  · exact Value.ranged_error _
  · exact Value.ranged_error _

/-- The only integers that are not supplied are lengths. -/
theorem integer_of_apply {f : Builtin} {m m' : Machine} {n : Int}
    (h : f.apply arguments m = .done (.integer n) m') :
    .integer n ∈ supply arguments ∨ length arguments = .integer n := by
  have honArray {body : List Value → Eval Value}
      (hbody : ∀ elements, body elements m = .done (.integer n) m' → .integer n ∈ elements)
      {g : Builtin} (hrun : g.onArray arguments body m = .done (.integer n) m') :
      .integer n ∈ supply arguments := by
    unfold onArray at hrun
    cases helements : g.arrayArgument 1 arguments with
    | ok elements =>
        rw [helements] at hrun
        exact arrayArgument_subset helements (hbody elements hrun)
    | error reason =>
        rw [helements] at hrun
        cases hrun
  have hfound {found : Option Value} {elements : List Value}
      (hsub : ∀ v, found = some v → v ∈ elements)
      (hrun : (Pure.pure (found.getD .null) : Eval Value) m = .done (.integer n) m') :
      .integer n ∈ elements := by
    cases found with
    | none => cases hrun
    | some v =>
        obtain ⟨rfl, -⟩ := Outcome.done.inj hrun
        exact hsub _ rfl
  have hshorter {cut : List Value → List Value} (elements : List Value)
      (hrun : (if elements.isEmpty then Pure.pure Value.null
        else Eval.newArray (cut elements)) m = .done (.integer n) m') :
      .integer n ∈ elements := by
    split at hrun <;> cases hrun
  cases f with
  | len => exact .inr (Outcome.done.inj h).1
  | first => exact .inl (honArray (fun _ => hfound fun _ => List.mem_of_head?) h)
  | last => exact .inl (honArray (fun _ => hfound fun _ => List.mem_of_getLast?) h)
  | rest => exact .inl (honArray hshorter h)
  | pop => exact .inl (honArray hshorter h)
  | push =>
      unfold apply at h
      cases helements : arrayArgument .push 2 arguments with
      | ok elements | error reason =>
          simp only [helements] at h
          cases h
  | puts =>
      obtain ⟨after, hdone, -⟩ := printAll_done arguments m
      rw [apply, hdone] at h
      cases h

theorem ranged_of_apply (hranged : ∀ v ∈ arguments, v.Ranged)
    (hshort : ∀ v ∈ arguments, v.Short) {f : Builtin} {m m' : Machine} {v : Value}
    (h : f.apply arguments m = .done v m') : v.Ranged ∧ m'.heap = m.heap := by
  cases Gives.of_done (f.gives_apply arguments) h with
  | flat hflat hheap hnext =>
      refine ⟨?_, hheap⟩
      cases v with
      | integer n =>
          rcases integer_of_apply h with hmem | hlength
          · exact every_supply hranged hmem
          · rw [← hlength]
            exact ranged_length hshort
      | array | hash | function | returned => cases hflat
      | _ => exact .of_parts trivial rfl
  | found hmem => exact ⟨every_supply hranged hmem, rfl⟩
  | array hsub => exact ⟨.intro trivial fun u hu => every_supply hranged (hsub hu), rfl⟩

end Builtin

end Scriptlet
