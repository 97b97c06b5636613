import Scriptlet.Proofs.Eval.Alike
import Scriptlet.Proofs.Eval.Footprint
import Scriptlet.Proofs.Eval.Regular

/-!
A call sees nothing but what can be got at from the callee and the arguments: the values
they hold, the scopes that functions among these captured, the scopes around those, and
what is bound there. In two machines that agree on these scopes, a call has results of
the same type and text and prints the same. Neither the caller's scope nor any other
scope that cannot be got at has a part in it, nor have calls made before.
-/

namespace Scriptlet

inductive Item where
  | value (v : Value)
  | scope (i : ScopeId)

/-- What can be got at from some values. -/
inductive Heap.Reaches (h : Heap) (roots : List Value) : Item → Prop where
  | root {v : Value} (hroot : v ∈ roots) : Reaches h roots (.value v)
  | part {v u : Value} (hv : Reaches h roots (.value v)) (hu : u ∈ v.parts) :
      Reaches h roots (.value u)
  | captured {id : Nat} {parameters : List String} {body : Node} {i : ScopeId}
      (hv : Reaches h roots (.value (.function id parameters body i))) :
      Reaches h roots (.scope i)
  | outer {i o : ScopeId} {s : Scope} (hi : Reaches h roots (.scope i))
      (hs : h.scopes[i]? = some s) (ho : s.outer = some o) : Reaches h roots (.scope o)
  | bound {i : ScopeId} {s : Scope} {name : String} {v : Value}
      (hi : Reaches h roots (.scope i)) (hs : h.scopes[i]? = some s)
      (hv : (name, v) ∈ s.bindings) : Reaches h roots (.value v)

namespace Heap

variable {h h' : Heap} {roots : List Value} {item : Item}

/-- The scopes that can be got at are the same in both heaps. -/
def AgreeOn (roots : List Value) (h h' : Heap) : Prop :=
  ∀ i, h.Reaches roots (.scope i) → h'.scopes[i]? = h.scopes[i]?

/-- Where heaps agree, the same can be got at. -/
theorem AgreeOn.reaches_iff (hagree : AgreeOn roots h h') :
    h'.Reaches roots item ↔ h.Reaches roots item := by
  constructor
  · intro hreach
    induction hreach with
    | root hroot => exact .root hroot
    | part _ hu ih => exact .part ih hu
    | captured _ ih => exact .captured ih
    | outer _ hs ho ih => exact .outer ih ((hagree _ ih).symm.trans hs) ho
    | bound _ hs hv ih => exact .bound ih ((hagree _ ih).symm.trans hs) hv
  · intro hreach
    induction hreach with
    | root hroot => exact .root hroot
    | part _ hu ih => exact .part ih hu
    | captured _ ih => exact .captured ih
    | outer hi hs ho ih => exact .outer ih ((hagree _ hi).trans hs) ho
    | bound hi hs hv ih => exact .bound ih ((hagree _ hi).trans hs) hv

/-- Binding a name where it cannot be got at makes no difference. -/
theorem agreeOn_bind {scope : ScopeId} (hscope : ¬ h.Reaches roots (.scope scope))
    (name : String) (v : Value) : AgreeOn roots h (h.bind scope name v) := by
  intro i hi
  have hne : scope ≠ i := by
    rintro rfl
    exact hscope hi
  simp [bind, Array.getElem?_modify, hne]

end Heap

namespace Machine

/-- The values belong to the machine: the scopes that can be got at are there, and the
numbers of the values that can be got at have been given out. -/
structure Owns (m : Machine) (roots : List Value) : Prop where
  scope_lt : ∀ i, m.heap.Reaches roots (.scope i) → i < m.heap.scopes.size
  number_lt : ∀ v id, m.heap.Reaches roots (.value v) → v.number? = some id → id < m.nextId

variable {m n : Machine} {roots : List Value}

theorem Owns.of_agreeOn (hm : m.Owns roots) (hagree : m.heap.AgreeOn roots n.heap)
    (hnext : m.nextId ≤ n.nextId) : n.Owns roots := by
  constructor
  · intro i hi
    have hreach := hagree.reaches_iff.mp hi
    have hlt := hm.scope_lt i hreach
    have hs : n.heap.scopes[i]? = some m.heap.scopes[i] := by
      rw [hagree i hreach]
      exact Array.getElem?_eq_getElem hlt
    exact (Array.getElem?_eq_some_iff.mp hs).1
  · intro v id hv hid
    have hlt := hm.number_lt v id (hagree.reaches_iff.mp hv) hid
    exact Nat.lt_of_lt_of_le hlt hnext

/-- Whatever has been added since can make no difference. -/
theorem Owns.agreeOn_extended (hm : m.Owns roots) (h : m.Extended n) :
    m.heap.AgreeOn roots n.heap :=
  fun i hi => h.scopes_eq i (hm.scope_lt i hi)

/-- In a regular machine, all that can be got at from values that belong to it does so
too. Every machine that evaluation makes is regular, and the values it gives belong to
it. -/
theorem Regular.owns (hm : m.Regular .counting)
    (hroots : ∀ v ∈ roots, m.Has .counting v) : m.Owns roots := by
  have hreach {item : Item} (h : m.heap.Reaches roots item) :
      match item with
      | .value v => m.Has .counting v
      | .scope i => i < m.heap.scopes.size := by
    induction h with
    | root hroot => exact hroots _ hroot
    | part _ hu ih => exact ih.part hu
    | captured _ ih => exact ih.here.scope_lt trivial _ _ _ _ rfl
    | outer _ hs ho ih => exact Nat.lt_trans (hm.outer_lt trivial ⟨_, hs, ho⟩) ih
    | bound _ hs hv _ => exact hm.stored ⟨_, Array.mem_of_getElem? hs, _, hv⟩
  constructor
  · intro i hi
    exact hreach hi
  · intro v id hv hid
    have hhas : m.Has .counting v := hreach hv
    exact hhas.here.number_lt trivial id hid

end Machine

/-- What is old stands for itself, and what is made anew for what is made anew at the same
turn. -/
def Counterpart (old : Nat → Prop) (first first' i j : Nat) : Prop :=
  (i = j ∧ old i) ∨ ∃ k, i = first + k ∧ j = first' + k

theorem Counterpart.eq_iff {old : Nat → Prop} {first first' i j i' j' : Nat}
    (hold : ∀ k, old k → k < first ∧ k < first') (h : Counterpart old first first' i j)
    (h' : Counterpart old first first' i' j') : i = i' ↔ j = j' := by
  rcases h with ⟨rfl, hi⟩ | ⟨k, rfl, rfl⟩
  · have hlt := hold i hi
    rcases h' with ⟨rfl, _⟩ | ⟨k', rfl, rfl⟩ <;> omega
  · rcases h' with ⟨rfl, hi'⟩ | ⟨k', rfl, rfl⟩
    · have hlt := hold i' hi'
      omega
    · omega

namespace Machine

/-- How two runs that start from these machines stand to each other. -/
def pairing (m n : Machine) (roots : List Value) : Pairing where
  number := Counterpart (fun i => i < m.nextId ∧ i < n.nextId) m.nextId n.nextId
  scope := Counterpart
    (fun i => (i < m.heap.scopes.size ∧ i < n.heap.scopes.size) ∧
      m.heap.Reaches roots (.scope i))
    m.heap.scopes.size n.heap.scopes.size
  number_iff := Counterpart.eq_iff fun _ hold => hold
  scope_iff := Counterpart.eq_iff fun _ hold => hold.1
  printed := m.printed
  printed' := n.printed

section Start

variable {m n : Machine} {roots : List Value} (hm : m.Owns roots) (hn : n.Owns roots)
  (hagree : m.heap.AgreeOn roots n.heap)

include hm hn hagree

theorem scope_pairing_self {i : ScopeId} (hreach : m.heap.Reaches roots (.scope i)) :
    (pairing m n roots).scope i i :=
  .inl ⟨rfl, ⟨hm.scope_lt i hreach, hn.scope_lt i (hagree.reaches_iff.mpr hreach)⟩, hreach⟩

theorem value_alike_self {v : Value} (hreach : m.heap.Reaches roots (.value v)) :
    Value.Alike (pairing m n roots) v v := by
  have hnumber {u : Value} {id : Nat} (hu : m.heap.Reaches roots (.value u))
      (hid : u.number? = some id) : (pairing m n roots).number id id :=
    .inl ⟨rfl, hm.number_lt u id hu hid, hn.number_lt u id (hagree.reaches_iff.mpr hu) hid⟩
  -- A function may be bound in the scope that it captured. Values alike need no more of a
  -- function than that its scope has a counterpart, so the induction ends there.
  induction v using Value.parts_induction with
  | step v ih =>
      have hparts : ∀ u ∈ v.parts, Value.Alike (pairing m n roots) u u :=
        fun u hu => ih u hu (hreach.part hu)
      cases v with
      | array id elements =>
          exact .array (hnumber hreach rfl) (List.forall₂_same.mpr hparts)
      | hash id pairs =>
          apply Value.Alike.hash (hnumber hreach rfl)
          rw [List.forall₂_same]
          intro pair hpair
          exact .mk pair.1 (hparts pair.2 (Value.mem_parts_hash hpair))
      | function id parameters body captured =>
          exact .function parameters body (hnumber hreach rfl)
            (scope_pairing_self hm hn hagree hreach.captured)
      | returned id value =>
          exact .returned (hnumber hreach rfl) (hparts value (List.mem_singleton.mpr rfl))
      | _ => constructor

theorem scope_alike_self {i : ScopeId} {s : Scope} (hreach : m.heap.Reaches roots (.scope i))
    (hs : m.heap.scopes[i]? = some s) : Scope.Alike (pairing m n roots) s s := by
  constructor
  · cases houter : s.outer with
    | none => exact .none
    | some o => exact .some (scope_pairing_self hm hn hagree (hreach.outer hs houter))
  · rw [List.forall₂_same]
    intro binding hbinding
    exact .mk binding.1 (value_alike_self hm hn hagree (hreach.bound hs hbinding))

theorem alike_start : Alike (pairing m n roots) m n where
  numbers k := .inr ⟨k, rfl, rfl⟩
  fresh k := .inr ⟨k, rfl, rfl⟩
  scopes {c d} hscope := by
    rcases hscope with ⟨rfl, hlt, hreach⟩ | ⟨k, rfl, rfl⟩
    · have hs : m.heap.scopes[c]? = some (m.heap.scopes[c]) := Array.getElem?_eq_getElem hlt.1
      rw [hagree c hreach, hs]
      exact .some (scope_alike_self hm hn hagree hreach hs)
    -- Scopes to be made are in neither heap yet.
    · rw [Array.getElem?_eq_none (Nat.le_add_right _ _),
        Array.getElem?_eq_none (Nat.le_add_right _ _)]
      exact .none
  printed := ⟨#[], by simp [pairing], by simp [pairing]⟩

end Start

end Machine

/-- If the evaluation is done in the one machine, it is done in the other, with a result of
the same type and the same text, and prints the same lines. -/
def Eval.Repeats (e : Eval Value) (m n : Machine) : Prop :=
  ∀ v m', e m = .done v m' → ∃ w n', e n = .done w n' ∧ w.tag = v.tag ∧
    w.inspect = v.inspect ∧
    ∃ lines, m'.printed = m.printed ++ lines ∧ n'.printed = n.printed ++ lines

open Eval

theorem apply_repeats {m n : Machine} {f : Value} {arguments : List Value}
    (hm : m.Owns (f :: arguments)) (hn : n.Owns (f :: arguments))
    (hagree : m.heap.AgreeOn (f :: arguments) n.heap) (levels : Nat) :
    (apply (evaluate levels) f arguments).Repeats m n := by
  intro v m' hdone
  have hself {u : Value} (hu : u ∈ f :: arguments) :
      Value.Alike (m.pairing n (f :: arguments)) u u :=
    Machine.value_alike_self hm hn hagree (.root hu)
  have hruns := apply_alike (evaluate_alike levels) (hself List.mem_cons_self)
    (List.forall₂_same.mpr fun u hu => hself (List.mem_cons_of_mem f hu)) m n
    (Machine.alike_start hm hn hagree)
  rw [hdone] at hruns
  generalize apply (evaluate levels) f arguments n = other at hruns
  cases hruns with
  | done hvalue hafter =>
      exact ⟨_, _, rfl, hvalue.tag_eq.symm, hvalue.inspect_eq.symm, hafter.printed⟩

/-- A call depends on nothing but what can be got at from the callee and the arguments. It
repeats in every machine that agrees on these scopes, so a binding in any other scope, the
caller's among them, makes no difference, and neither does any call made before. -/
theorem apply_depends_on_reachable (levels : Nat) (f : Value) (arguments : List Value)
    (m : Machine) (hm : m.Owns (f :: arguments)) :
    (∀ n : Machine, n.Owns (f :: arguments) → m.heap.AgreeOn (f :: arguments) n.heap →
      (apply (evaluate levels) f arguments).Repeats m n) ∧
    (∀ scope name value, ¬ m.heap.Reaches (f :: arguments) (.scope scope) →
      (apply (evaluate levels) f arguments).Repeats m
        { m with heap := m.heap.bind scope name value }) ∧
    ∀ levels' g others, (apply (evaluate levels) f arguments).Repeats m
      (apply (evaluate levels') g others m).machine := by
  refine ⟨?_, ?_, ?_⟩
  · intro n hn hagree
    exact apply_repeats hm hn hagree levels
  · intro scope name value hscope
    let n : Machine := { m with heap := m.heap.bind scope name value }
    have hagree : m.heap.AgreeOn (f :: arguments) n.heap := Heap.agreeOn_bind hscope name value
    have hn : n.Owns (f :: arguments) := hm.of_agreeOn hagree (Nat.le_refl _)
    exact apply_repeats hm hn hagree levels
  · intro levels' g others
    have hextended := apply_frames (evaluate_frames levels') g others m
    have hagree := hm.agreeOn_extended hextended
    exact apply_repeats hm (hm.of_agreeOn hagree hextended.nextId_le) hagree levels

/-- Makes `add`, which prints the number it was made with and adds it to its argument. -/
def makingAdder : Node :=
  let name (s : String) : Ident := ⟨⟨.ident, s, 1, 1⟩, s⟩
  let brace : Token := ⟨.symbol .leftBrace, "\x7b", 1, 1⟩
  let paren : Token := ⟨.symbol .leftParen, "(", 1, 1⟩
  let letWord : Token := ⟨.keyword .letWord, "let", 1, 1⟩
  let fnWord : Token := ⟨.keyword .fnWord, "fn", 1, 1⟩
  let adding : Node := .function fnWord [name "y"] (.block brace
    [.expression paren (.call paren (.ident (name "puts")) [.ident (name "x")]),
      .expression paren (.binary paren (.ident (name "x")) "+" (.ident (name "y")))])
  .program
    [.binding letWord (name "make")
      (.function fnWord [name "x"] (.block brace [.expression fnWord adding])),
    .binding letWord (name "add")
      (.call paren (.ident (name "make")) [.integer ⟨.number, "2", 1, 1⟩ 2])]

def withAdder : Machine :=
  (evaluate 9 0 makingAdder Machine.withScope.2).machine

/-- The same machine with one scope more, other numbers to come and a line printed. -/
def withAdderAndMore : Machine :=
  { withAdder with
    heap := (withAdder.heap.enclose none).2, nextId := 7, printed := #["earlier"] }

def adder : Value :=
  (withAdder.heap.get? 0 "add").getD .null

theorem adder_owned : withAdder.Owns [adder, .integer 3] := by
  obtain ⟨_, hregular, _⟩ := evaluate_keeps Law.counting 9 0 makingAdder
    Machine.withScope.2 trivial Machine.regular_withScope fun _ => Nat.zero_lt_one
  have hfound : withAdder.heap.get? 0 "add" = some adder := rfl
  apply hregular.owns
  intro v hv
  rcases List.mem_cons.mp hv with rfl | hargument
  · exact hregular.stored (Heap.stores_of_get? hfound)
  · rw [List.mem_singleton.mp hargument]
    exact .flat rfl

theorem adder_repeats :
    withAdder.Owns [adder, .integer 3] ∧ withAdderAndMore.Owns [adder, .integer 3] ∧
      withAdder.heap.AgreeOn [adder, .integer 3] withAdderAndMore.heap ∧
      ∃ m' n' w, apply (evaluate 9) adder [.integer 3] withAdder = .done (.integer 5) m' ∧
        m'.printed = #["2"] ∧
        apply (evaluate 9) adder [.integer 3] withAdderAndMore = .done w n' ∧
        w.inspect = (Value.integer 5).inspect ∧ n'.printed = #["earlier", "2"] := by
  have henclosed := Machine.extended_enclose (m := withAdder) none
  have hextended : withAdder.Extended withAdderAndMore :=
    ⟨henclosed.size_le, by decide, henclosed.scopes_eq⟩
  have hagree := adder_owned.agreeOn_extended hextended
  have hmore := adder_owned.of_agreeOn hagree hextended.nextId_le
  refine ⟨adder_owned, hmore, hagree, ?_⟩
  obtain ⟨w, n', hdone, _, htext, lines, hfirst, hsecond⟩ :=
    (apply_depends_on_reachable 9 adder [.integer 3] withAdder adder_owned).1
      withAdderAndMore hmore hagree _ _ rfl
  have hlines : #["2"] = lines := hfirst.trans Array.empty_append
  refine ⟨_, n', w, rfl, rfl, hdone, htext, ?_⟩
  rw [hsecond, ← hlines]
  rfl

end Scriptlet
