import Mathlib.Data.List.Forall2
import Scriptlet.Eval.Operator
import Scriptlet.Proofs.Value.Parts
import Scriptlet.Value.Display

/-!
Values of two runs that are alike: the same but for the numbers of arrays, hashes,
functions and return wrappers, and for the numbers of the scopes that functions
captured. Both kinds of numbers stand for each other one to one, so values alike have
the same type and the same text, are the same as another under the same conditions, and
every operator takes values alike to values alike.
-/

namespace Scriptlet

/-- Which numbers and which scopes of one run stand for which of another. -/
structure Pairing where
  number : Nat → Nat → Prop
  scope : ScopeId → ScopeId → Prop
  /-- What the one run and the other had printed before. -/
  printed : Array String
  printed' : Array String
  number_iff : ∀ {i j i' j'}, number i j → number i' j' → (i = i' ↔ j = j')
  scope_iff : ∀ {c d c' d'}, scope c d → scope c' d' → (c = c' ↔ d = d')

namespace Value

/-- Two entries under one key. -/
inductive Keyed {κ : Type} (r : Value → Value → Prop) : κ × Value → κ × Value → Prop where
  | mk (key : κ) {v w : Value} (h : r v w) : Keyed r (key, v) (key, w)

section Entries

variable {κ : Type} [BEq κ] {r : Value → Value → Prop}

/-- Keys are equal, so a key is found in both lists or in neither. -/
theorem lookup_keyed {ps qs : List (κ × Value)} (h : List.Forall₂ (Keyed r) ps qs) (key : κ) :
    Option.Rel r (ps.lookup key) (qs.lookup key) := by
  induction h with
  | nil => exact .none
  | cons hentry _ ih =>
      cases hentry with
      | mk k hvalue =>
          simp only [List.lookup_cons]
          split
          · exact .some hvalue
          · exact ih

/-- A pair is entered in the same place in both. -/
theorem insertPair_keyed {ps qs : List (Key × Value)} (h : List.Forall₂ (Keyed r) ps qs)
    (key : Key) {v w : Value} (hvalue : r v w) :
    List.Forall₂ (Keyed r) (insertPair ps key v) (insertPair qs key w) := by
  induction h with
  | nil => exact .cons (.mk key hvalue) .nil
  | cons hentry hrest ih =>
      cases hentry with
      | mk k hfound =>
          unfold insertPair
          split
          · exact .cons (.mk key hvalue) hrest
          · exact .cons (.mk k hfound) ih

end Entries

/-- The same but for numbers that stand for each other. -/
inductive Alike (π : Pairing) : Value → Value → Prop where
  | integer (n : Int) : Alike π (.integer n) (.integer n)
  | boolean (b : Bool) : Alike π (.boolean b) (.boolean b)
  | text (s : String) : Alike π (.text s) (.text s)
  | null : Alike π .null .null
  | array {i j : Nat} {vs ws : List Value} (hid : π.number i j)
      (h : List.Forall₂ (Alike π) vs ws) : Alike π (.array i vs) (.array j ws)
  | hash {i j : Nat} {ps qs : List (Key × Value)} (hid : π.number i j)
      (h : List.Forall₂ (Keyed (Alike π)) ps qs) : Alike π (.hash i ps) (.hash j qs)
  | function {i j : Nat} {c d : ScopeId} (parameters : List String) (body : Node)
      (hid : π.number i j) (hscope : π.scope c d) :
      Alike π (.function i parameters body c) (.function j parameters body d)
  | builtin (f : Builtin) : Alike π (.builtin f) (.builtin f)
  | returned {i j : Nat} {v w : Value} (hid : π.number i j) (h : Alike π v w) :
      Alike π (.returned i v) (.returned j w)
  | error (reason : RuntimeError) : Alike π (.error reason) (.error reason)

variable {π : Pairing} {v w v' w' : Value}

namespace Alike

/-- All that operators and conditions ask of a value is the same for values alike. -/
theorem tag_eq (h : Alike π v w) : v.tag = w.tag := by
  cases h <;> rfl

theorem isTruthy_eq (h : Alike π v w) : v.isTruthy = w.isTruthy := by
  cases h <;> rfl

theorem isError_eq (h : Alike π v w) : v.isError = w.isError := by
  cases h <;> rfl

theorem isExit_eq (h : Alike π v w) : v.isExit = w.isExit := by
  cases h <;> rfl

/-- Values that can be keys have no number, so alike they are equal. -/
theorem key?_eq (h : Alike π v w) : v.key? = w.key? := by
  cases h <;> rfl

theorem unwrap (h : Alike π v w) : Alike π v.unwrap w.unwrap := by
  have halike := h
  cases h with
  | returned hid hvalue => exact hvalue
  | _ => exact halike

/-- Identity is a matter of numbers, which stand for each other one to one. -/
theorem same_eq (h : Alike π v w) (h' : Alike π v' w') : v.same v' = w.same w' := by
  have hnumber {i j i' j' : Nat} (hid : π.number i j) (hid' : π.number i' j') :
      (i == i') = (j == j') := by
    rw [Bool.eq_iff_iff, beq_iff_eq, beq_iff_eq]
    exact π.number_iff hid hid'
  cases h with
  | array hid _ =>
      cases h' with
      | array hid' _ => exact hnumber hid hid'
      | _ => rfl
  | hash hid _ =>
      cases h' with
      | hash hid' _ => exact hnumber hid hid'
      | _ => rfl
  | function _ _ hid _ =>
      cases h' with
      | function _ _ hid' _ => exact hnumber hid hid'
      | _ => rfl
  | returned hid _ =>
      cases h' with
      | returned hid' _ => exact hnumber hid hid'
      | _ => rfl
  | _ => cases h' <;> rfl

/-- Numbers and scopes do not show in the text of a value. -/
theorem inspect_eq (h : Alike π v w) : v.inspect = w.inspect := by
  induction v using parts_induction generalizing w with
  | step v ih =>
      cases h with
      | array hid hall =>
          have hrest {vs ws : List Value} (hall : List.Forall₂ (Alike π) vs ws)
              (ih : ∀ u ∈ vs, ∀ {w}, Alike π u w → u.inspect = w.inspect) :
              inspectAll vs = inspectAll ws := by
            induction hall with
            | nil => rfl
            | cons hfirst _ ihrest =>
                rw [List.forall_mem_cons] at ih
                simp only [inspectAll, ih.1 hfirst, ihrest ih.2]
          simp only [inspect, hrest hall ih]
      | hash hid hall =>
          have hrest {ps qs : List (Key × Value)} (hall : List.Forall₂ (Keyed (Alike π)) ps qs)
              (ih : ∀ p ∈ ps, ∀ {w}, Alike π p.2 w → p.2.inspect = w.inspect) :
              inspectPairs ps = inspectPairs qs := by
            induction hall with
            | nil => rfl
            | cons hfirst _ ihrest =>
                rw [List.forall_mem_cons] at ih
                cases hfirst with
                | mk key hvalue => simp only [inspectPairs, ih.1 hvalue, ihrest ih.2]
          simp only [inspect, hrest hall fun p hp => ih p.2 (mem_parts_hash hp)]
      | returned hid hvalue =>
          simp only [inspect]
          exact ih _ (List.mem_singleton.mpr rfl) hvalue
      | _ => rfl

end Alike

theorem unary_of_tag_ne (operator : String) (h : v.tag ≠ .integer) :
    v.unary operator =
      if operator = "!" then .boolean (!v.isTruthy)
      else .error (.unknownUnary operator v.tag) := by
  cases v with
  | integer n => exact absurd rfl h
  | _ =>
      unfold unary
      split <;> simp_all

theorem alike_unary (operator : String) (h : Alike π v w) :
    Alike π (v.unary operator) (w.unary operator) := by
  by_cases htag : v.tag = .integer
  · cases h with
    | integer n =>
        unfold unary
        split <;> constructor
    | _ => cases htag
  · rw [unary_of_tag_ne operator htag, unary_of_tag_ne operator (h.tag_eq ▸ htag),
      h.isTruthy_eq, h.tag_eq]
    split <;> constructor

theorem alike_integerBinary (operator : String) (a b : Int) :
    Alike π (integerBinary operator a b) (integerBinary operator a b) := by
  unfold integerBinary
  split
  case h_4 =>
      split
      · exact .integer _
      · exact .error _
  all_goals constructor

theorem alike_textBinary (operator : String) (a b : String) :
    Alike π (textBinary operator a b) (textBinary operator a b) := by
  unfold textBinary
  split
  all_goals constructor

theorem otherBinary_of_tag_ne (operator : String) (h : v.tag ≠ .boolean) (v' : Value) :
    v.otherBinary operator v' =
      if operator = "==" then .boolean (v.same v')
      else if operator = "!=" then .boolean (!v.same v')
      else if v.tag ≠ v'.tag then .error (.mismatch v.tag operator v'.tag)
      else .error (.unknownBinary v.tag operator v'.tag) := by
  unfold otherBinary
  split
  · rfl
  split
  · rfl
  split
  · rfl
  split
  case h_3 => rfl
  all_goals exact absurd rfl h

theorem alike_otherBinary (operator : String) (h : Alike π v w) (h' : Alike π v' w') :
    Alike π (v.otherBinary operator v') (w.otherBinary operator w') := by
  by_cases htag : v.tag = .boolean
  · cases h with
    | boolean a =>
        unfold otherBinary
        rw [(Alike.boolean a).same_eq h', h'.tag_eq]
        split
        · exact .boolean _
        split
        · exact .boolean _
        split
        · exact .error _
        next htags =>
            cases h' with
            | boolean b => split <;> constructor
            | _ => exact absurd nofun htags
    | _ => cases htag
  · rw [otherBinary_of_tag_ne operator htag, otherBinary_of_tag_ne operator (h.tag_eq ▸ htag),
      h.same_eq h', h.tag_eq, h'.tag_eq]
    split
    · exact .boolean _
    split
    · exact .boolean _
    split
    · exact .error _
    · exact .error _

/-- Identity is the one thing that an operator asks about numbers, and a pairing keeps it. -/
theorem alike_binary (operator : String) (h : Alike π v w) (h' : Alike π v' w') :
    Alike π (v.binary operator v') (w.binary operator w') := by
  have hother := alike_otherBinary operator h h'
  cases h with
  | integer a =>
      cases h' with
      | integer b => exact alike_integerBinary operator a b
      | _ => exact hother
  | text a =>
      cases h' with
      | text b => exact alike_textBinary operator a b
      | _ => exact hother
  | _ => exact hother

theorem alike_getD {found found' : Option Value} (h : Option.Rel (Alike π) found found') :
    Alike π (found.getD .null) (found'.getD .null) := by
  cases h with
  | some hvalue => exact hvalue
  | none => exact .null

theorem alike_getElem? {vs ws : List Value} (h : List.Forall₂ (Alike π) vs ws) (n : Nat) :
    Option.Rel (Alike π) vs[n]? ws[n]? := by
  induction h generalizing n with
  | nil => exact .none
  | cons hfirst _ ih =>
      cases n with
      | zero => exact .some hfirst
      | succ n => exact ih n

/-- The element at a place, or the value for a key, is alike in both collections. -/
theorem alike_index (h : Alike π v w) (h' : Alike π v' w') :
    Alike π (v.index v') (w.index w') := by
  have htag := h'.tag_eq
  have hkey := h'.key?_eq
  cases h with
  | array hid hall =>
      cases h' with
      | integer n =>
          simp only [index]
          split
          · exact alike_getD (alike_getElem? hall _)
          · exact .null
      | _ => exact .error _
  | hash hid hall =>
      simp only [index, hkey, htag]
      split
      · exact alike_getD (lookup_keyed hall _)
      · exact .error _
  | _ => exact .error _

end Value

end Scriptlet
