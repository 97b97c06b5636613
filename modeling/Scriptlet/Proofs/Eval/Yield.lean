import Scriptlet.Eval.Builtin
import Scriptlet.Proofs.Value.Parts

/-!
What the functions of every program give: a value that was not made under a number, or
an element of an argument, or a new array of such elements and arguments. They leave the
scopes alone.
-/

namespace Scriptlet.Builtin

/-- The arguments and their elements. -/
def supply (arguments : List Value) : List Value :=
  arguments.flatMap Value.parts ++ arguments

/-- A property of all arguments, with what they hold, is one of everything that functions can take
from them. -/
theorem every_supply {property : Value → Prop} {arguments : List Value} {v : Value}
    (h : ∀ v ∈ arguments, v.Every property) (hv : v ∈ supply arguments) :
    v.Every property := by
  rcases List.mem_append.mp hv with hpart | hargument
  · obtain ⟨argument, hargument, hpart⟩ := List.mem_flatMap.mp hpart
    exact (h argument hargument).part hpart
  · exact h v hargument

/-- A value that a function may give, and the machine it leaves. -/
inductive Yields (arguments : List Value) (m : Machine) : Value → Machine → Prop where
  | flat {v : Value} {m' : Machine} (hflat : v.number? = none) (hheap : m'.heap = m.heap)
      (hnext : m'.nextId = m.nextId) : Yields arguments m v m'
  | found {v : Value} (hmem : v ∈ supply arguments) : Yields arguments m v m
  | array {vs : List Value} (hsub : vs ⊆ supply arguments) :
      Yields arguments m (.array m.nextId vs) { m with nextId := m.nextId + 1 }

variable {arguments : List Value}

/-- The elements of an argument are among what is supplied. -/
theorem arrayArgument_subset {f : Builtin} {wanted : Nat} {elements : List Value}
    (h : f.arrayArgument wanted arguments = .ok elements) : elements ⊆ supply arguments := by
  unfold arrayArgument at h
  split at h
  · cases h
  split at h
  next id found rest =>
    cases h
    intro v hv
    exact List.mem_append_left _ (List.mem_flatMap.mpr ⟨_, List.mem_cons_self, hv⟩)
  next => cases h
  next =>
    cases h
    exact List.nil_subset _

/-- The evaluation comes to an end with such a value. -/
def Gives (arguments : List Value) (e : Eval Value) : Prop :=
  ∀ m, ∃ v m', e m = .done v m' ∧ Yields arguments m v m'

theorem Gives.of_done {e : Eval Value} {m m' : Machine} {v : Value} (h : Gives arguments e)
    (hrun : e m = .done v m') : Yields arguments m v m' := by
  obtain ⟨v', after, hdone, hyields⟩ := h m
  rw [hrun] at hdone
  obtain ⟨rfl, rfl⟩ := Outcome.done.inj hdone
  exact hyields

theorem Gives.not_broken {e : Eval Value} {m m' : Machine} {breach : Breach}
    (h : Gives arguments e) : e m ≠ .broken breach m' := by
  intro hrun
  obtain ⟨v, after, hdone, _⟩ := h m
  rw [hrun] at hdone
  cases hdone

theorem Gives.not_tooDeep {e : Eval Value} {m m' : Machine} (h : Gives arguments e) :
    e m ≠ .tooDeep m' := by
  intro hrun
  obtain ⟨v, after, hdone, _⟩ := h m
  rw [hrun] at hdone
  cases hdone

theorem gives_pure {v : Value} (h : v.number? = none ∨ v ∈ supply arguments) :
    Gives arguments (Pure.pure v) := by
  intro m
  rcases h with hflat | hmem
  · exact ⟨v, m, rfl, .flat hflat rfl rfl⟩
  · exact ⟨v, m, rfl, .found hmem⟩

theorem gives_getD {found : Option Value} (h : ∀ v ∈ found, v ∈ supply arguments) :
    Gives arguments (Pure.pure (found.getD .null)) := by
  apply gives_pure
  cases found with
  | none => exact .inl rfl
  | some v => exact .inr (h v rfl)

theorem gives_newArray {vs : List Value} (h : vs ⊆ supply arguments) :
    Gives arguments (Eval.newArray vs) :=
  fun _ => ⟨_, _, rfl, .array h⟩

/-- A wrong argument gives an error, which takes nothing. -/
theorem gives_onArray (f : Builtin) {body : List Value → Eval Value}
    (hbody : ∀ elements, elements ⊆ supply arguments → Gives arguments (body elements)) :
    Gives arguments (f.onArray arguments body) := by
  unfold onArray
  split
  next elements helements => exact hbody elements (arrayArgument_subset helements)
  next => exact gives_pure (.inl rfl)

/-- Printing touches no scope and gives out no number. -/
theorem printAll_done (vs : List Value) (m : Machine) :
    ∃ m', printAll vs m = .done .null m' ∧ m'.heap = m.heap ∧ m'.nextId = m.nextId := by
  induction vs generalizing m with
  | nil => exact ⟨m, rfl, rfl, rfl⟩
  | cons v vs ih => exact ih { m with printed := m.printed.push v.inspect }

theorem number?_length (arguments : List Value) : (length arguments).number? = none := by
  unfold length
  split <;> rfl

/-- A function that every program has comes to an end, and gives nothing that was not
supplied but values without a number and new arrays. -/
theorem gives_apply (f : Builtin) (arguments : List Value) :
    Gives arguments (f.apply arguments) := by
  have hshorter {cut : List Value → List Value} (hcut : ∀ vs, cut vs ⊆ vs) (g : Builtin) :
      Gives arguments (g.onArray arguments fun vs =>
        if vs.isEmpty then return .null else Eval.newArray (cut vs)) := by
    apply gives_onArray
    intro elements hsub
    split
    · exact gives_pure (.inl rfl)
    · exact gives_newArray fun _ hv => hsub (hcut elements hv)
  have htail (vs : List Value) : vs.tail ⊆ vs := fun _ => List.mem_of_mem_tail
  cases f with
  | len => exact gives_pure (.inl (number?_length arguments))
  | first =>
      apply gives_onArray
      intro elements hsub
      exact gives_getD fun v hv => hsub (List.mem_of_head? hv)
  | last =>
      apply gives_onArray
      intro elements hsub
      exact gives_getD fun v hv => hsub (List.mem_of_getLast? hv)
  | rest => exact hshorter htail .rest
  | pop => exact hshorter (fun vs => (List.dropLast_sublist vs).subset) .pop
  | push =>
      simp only [apply]
      split
      next elements helements =>
        apply gives_newArray
        apply List.append_subset.mpr
        constructor
        · exact arrayArgument_subset helements
        · exact fun _ hv => List.mem_append_right _ (htail arguments hv)
      next => exact gives_pure (.inl rfl)
  | puts =>
      intro m
      obtain ⟨m', hdone, hheap, hnext⟩ := printAll_done arguments m
      exact ⟨_, _, hdone, .flat rfl hheap hnext⟩

end Scriptlet.Builtin
