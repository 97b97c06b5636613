import Scriptlet.Eval.Evaluate

/-!
Hash literals as finite maps. A hash keeps its pairs in a list, entered one after the other; a key
that comes again keeps its place and gets the new value. Two values make the same key exactly if
the language's own `==` says that they are equal, so seen from a program a literal is the map in
which the last pair for a key wins, with its keys in the order in which they first came up.
-/

namespace Scriptlet

/-- A list without the members that equal an earlier one. -/
def firsts {α : Type} (equal : α → α → Bool) : List α → List α
  | [] => []
  | a :: as => a :: (firsts equal as).filter fun b => !equal a b

theorem firsts_map {α β : Type} {equal : α → α → Bool} {equal' : β → β → Bool} {f : α → β}
    (h : ∀ a b, equal' (f a) (f b) = equal a b) (as : List α) :
    firsts equal' (as.map f) = (firsts equal as).map f := by
  have hcomp (a : α) : (fun b => !equal' (f a) b) ∘ f = fun b => !equal a b := by
    funext b
    simp [h]
  induction as with
  | nil => rfl
  | cons a as ih => rw [List.map_cons, firsts, firsts, List.map_cons, ih, List.filter_map, hcomp]

namespace Value

/-- An integer, a boolean or a text. -/
def IsKey (v : Value) : Prop :=
  v.tag ∈ [TypeTag.integer, .boolean, .text]

instance (v : Value) : Decidable v.IsKey :=
  inferInstanceAs (Decidable (_ ∈ _))

theorem key?_toValue (key : Key) : key.toValue.key? = some key := by
  cases key <;> rfl

theorem IsKey.exists_key {v : Value} (h : v.IsKey) : ∃ key : Key, v = key.toValue := by
  cases v with
  | integer n => exact ⟨.integer n, rfl⟩
  | boolean b => exact ⟨.boolean b, rfl⟩
  | text s => exact ⟨.text s, rfl⟩
  | _ => simp [IsKey, tag] at h

/-- The language tells keys apart exactly as hashes do. -/
theorem binary_equal_toValue (a b : Key) :
    a.toValue.binary "==" b.toValue = .boolean (decide (a = b)) := by
  cases a <;> cases b <;>
    simp [Key.toValue, binary, integerBinary, textBinary, otherBinary, same,
      Bool.beq_eq_decide_eq]

/-- The language's own equality. -/
def equals (a b : Value) : Bool :=
  (a.binary "==" b).isTruthy

theorem equal_toValue_iff {a b : Key} :
    a.toValue.binary "==" b.toValue = .boolean true ↔ a = b := by
  rw [binary_equal_toValue, boolean.injEq, decide_eq_true_eq]

/-- The pairs of type and contents tell the same keys apart. -/
theorem parts_eq_iff {a b : Key} :
    a.parts = b.parts ↔ a.toValue.binary "==" b.toValue = .boolean true := by
  rw [equal_toValue_iff]
  exact ⟨Key.parts_injective, congrArg Key.parts⟩

end Value

section Pairs

variable (pairs : List (Key × Value)) (key : Key) (v : Value)

theorem lookup_insertPair (k : Key) :
    (insertPair pairs key v).lookup k = if k = key then some v else pairs.lookup k := by
  induction pairs with
  | nil =>
      by_cases hk : k = key <;> simp [insertPair, hk]
  | cons pair pairs ih =>
      obtain ⟨first, old⟩ := pair
      unfold insertPair
      by_cases hfirst : first = key
      · subst hfirst
        by_cases hk : k = first
        · simp [hk]
        · simp [hk, List.lookup_cons, beq_eq_false_iff_ne.mpr hk]
      · rw [if_neg hfirst, List.lookup_cons, List.lookup_cons, ih]
        by_cases hk : k = first
        · simp [hk, hfirst]
        · simp [beq_eq_false_iff_ne.mpr hk]

/-- A key that is new comes last, and any other keeps its place. -/
theorem keys_insertPair :
    (insertPair pairs key v).map Prod.fst =
      pairs.map Prod.fst ++ if key ∈ pairs.map Prod.fst then [] else [key] := by
  induction pairs with
  | nil => rfl
  | cons pair pairs ih =>
      obtain ⟨first, old⟩ := pair
      unfold insertPair
      by_cases hfirst : first = key
      · simp [hfirst]
      · have hmem : key ∈ first :: pairs.map Prod.fst ↔ key ∈ pairs.map Prod.fst := by
          rw [List.mem_cons, or_iff_right (Ne.symm hfirst)]
        simp only [if_neg hfirst, List.map_cons, ih, List.cons_append, hmem]

end Pairs

/-- Enters pairs one after the other. -/
def insertPairs (pairs entries : List (Key × Value)) : List (Key × Value) :=
  entries.foldl (fun found entry => insertPair found entry.1 entry.2) pairs

theorem insertPairs_cons (pairs : List (Key × Value)) (entry : Key × Value)
    (entries : List (Key × Value)) :
    insertPairs pairs (entry :: entries) =
      insertPairs (insertPair pairs entry.1 entry.2) entries := rfl

/-- The last pair for a key wins. -/
theorem lookup_insertPairs (pairs entries : List (Key × Value)) (k : Key) :
    (insertPairs pairs entries).lookup k = (entries.reverse.lookup k).or (pairs.lookup k) := by
  induction entries generalizing pairs with
  | nil => rfl
  | cons entry entries ih =>
      obtain ⟨key, v⟩ := entry
      rw [insertPairs_cons, ih, lookup_insertPair, List.reverse_cons, List.lookup_append, Option.or_assoc]
      by_cases hk : k = key
      · simp [hk]
      · simp [hk, List.lookup_cons, beq_eq_false_iff_ne.mpr hk]

/-- Keys stand in the order in which they first came up. -/
theorem keys_insertPairs (pairs entries : List (Key × Value)) :
    (insertPairs pairs entries).map Prod.fst = pairs.map Prod.fst ++
      (firsts (fun a b => decide (a = b)) (entries.map Prod.fst)).filter
        fun k => decide (k ∉ pairs.map Prod.fst) := by
  induction entries generalizing pairs with
  | nil => simp [insertPairs, firsts]
  | cons entry entries ih =>
      obtain ⟨key, v⟩ := entry
      rw [insertPairs_cons, ih, keys_insertPair, List.map_cons, firsts]
      by_cases hkey : key ∈ pairs.map Prod.fst
      · have hsame (k : Key) : (decide (k ∉ pairs.map Prod.fst) && !decide (key = k)) =
            decide (k ∉ pairs.map Prod.fst) := by
          by_cases hk : k ∈ pairs.map Prod.fst
          · simp [hk]
          · have hne : key ≠ k := fun heq => hk (heq ▸ hkey)
            simp [hk, hne]
        simp only [hkey, if_true, List.append_nil, not_true_eq_false, decide_false,
          List.filter_cons, Bool.false_eq_true, if_false, List.filter_filter, hsame]
      · have hsplit (k : Key) : decide (k ∉ pairs.map Prod.fst ++ [key]) =
            (decide (k ∉ pairs.map Prod.fst) && !decide (key = k)) := by
          by_cases hk : key = k
          · simp [hk]
          · simp [hk, Ne.symm hk]
        simp only [hkey, if_false, not_false_eq_true, decide_true, List.filter_cons, if_true,
          List.filter_filter, hsplit, List.append_assoc, List.singleton_append]

/-- Pairs of values as a program sees them, made of pairs with keys. -/
def shown (entries : List (Key × Value)) : List (Value × Value) :=
  entries.map fun entry => (entry.1.toValue, entry.2)

theorem exists_shown {entries : List (Value × Value)} (h : ∀ entry ∈ entries, entry.1.IsKey) :
    ∃ keyed, entries = shown keyed := by
  induction entries with
  | nil => exact ⟨[], rfl⟩
  | cons entry entries ih =>
      rw [List.forall_mem_cons] at h
      obtain ⟨keyed, rfl⟩ := ih h.2
      obtain ⟨key, hkey⟩ := h.1.exists_key
      refine ⟨(key, entry.2) :: keyed, ?_⟩
      show entry :: shown keyed = (key.toValue, entry.2) :: shown keyed
      rw [← hkey]

/-- Entered pairs with other keys, as they are passed over from the last one on. -/
theorem bne_of_shown {entries : List (Key × Value)} {k : Key}
    (h : ∀ entry ∈ shown entries, entry.1.binary "==" k.toValue ≠ .boolean true) :
    ∀ entry ∈ entries.reverse, (k != entry.1) = true := by
  intro entry hentry
  have hmem : (entry.1.toValue, entry.2) ∈ shown entries :=
    List.mem_map_of_mem (List.mem_reverse.mp hentry)
  rw [bne_iff_ne]
  intro heq
  exact h _ hmem (Value.equal_toValue_iff.mpr heq.symm)

namespace Eval

variable {step : Step} {nodes : List (Node × Node)} {m m' : Machine}
  {entries : List (Value × Value)}

/-- Evaluating the nodes of pairs from left to right, each key before its value, comes to these
values, none of which is an error. -/
inductive PairsDone (step : Step) :
    List (Node × Node) → Machine → List (Value × Value) → Machine → Prop where
  | nil {m : Machine} : PairsDone step [] m [] m
  | cons {keyNode valueNode : Node} {nodes : List (Node × Node)} {m m₁ m₂ m₃ : Machine}
      {key v : Value} {entries : List (Value × Value)}
      (hkey : step keyNode m = .done (some key) m₁) (hkeyError : key.isError = false)
      (hvalue : step valueNode m₁ = .done (some v) m₂) (hvalueError : v.isError = false)
      (hrest : PairsDone step nodes m₂ entries m₃) :
      PairsDone step ((keyNode, valueNode) :: nodes) m ((key, v) :: entries) m₃

/-- The pairs of a literal are entered in the order in which they are evaluated. -/
theorem PairsDone.pairs_eq {entries : List (Key × Value)}
    (h : PairsDone step nodes m (shown entries) m')
    (found : List (Key × Value)) :
    pairs step nodes found m = .done (.ok (insertPairs found entries)) m' := by
  induction entries generalizing nodes m found with
  | nil =>
      cases h
      rfl
  | cons entry entries ih =>
      obtain ⟨key, v⟩ := entry
      cases h with
      | @cons keyNode valueNode nodes _ m₁ m₂ _ _ _ _ hkey _ hvalue hvalueError hrest =>
          have hstep : pairs step ((keyNode, valueNode) :: nodes) found m =
              pairs step nodes (insertPair found key v) m₂ := by
            rw [pairs, bind_done (value_done hkey)]
            -- Whatever its type, the key is entered once the value is there.
            cases key
            all_goals
              show (value step valueNode >>= _) m₁ = _
              rw [bind_done (value_done hvalue)]
              cases v with
              | error reason => cases hvalueError
              | _ => rfl
          rw [hstep, ih hrest, insertPairs_cons]

end Eval

section Literal

variable {keyed : List (Key × Value)} (id : Nat)

/-- The keys of a literal, in the order of the first of those that are `==` to each other. -/
theorem keys_literal :
    (insertPairs [] keyed).map (fun pair => pair.1.toValue) =
      firsts Value.equals ((shown keyed).map Prod.fst) := by
  have hequal (a b : Key) : a.toValue.equals b.toValue = decide (a = b) := by
    unfold Value.equals
    rw [Value.binary_equal_toValue]
    rfl
  have hall (ks : List Key) : ks.filter (fun k => decide (k ∉ ([] : List Key))) = ks := by simp
  calc
    (insertPairs [] keyed).map (fun pair => pair.1.toValue)
    _ = ((insertPairs [] keyed).map Prod.fst).map Key.toValue := by rw [List.map_map]; rfl
    _ = (firsts (fun a b => decide (a = b)) (keyed.map Prod.fst)).map Key.toValue := by
      rw [keys_insertPairs, List.map_nil, List.nil_append, hall]
    _ = firsts Value.equals ((keyed.map Prod.fst).map Key.toValue) := (firsts_map hequal _).symm
    _ = firsts Value.equals ((shown keyed).map Prod.fst) := by
      rw [shown, List.map_map, List.map_map]
      rfl

theorem index_literal (k : Key) :
    (Value.hash id (insertPairs [] keyed)).index k.toValue =
      (keyed.reverse.lookup k).getD .null := by
  have hlookup := lookup_insertPairs [] keyed k
  rw [List.lookup_nil, Option.or_none] at hlookup
  simp only [Value.index, Value.key?_toValue, hlookup]

/-- The last pair for a key wins. -/
theorem index_literal_last {k : Key} {before after : List (Value × Value)} {key v : Value}
    (h : shown keyed = before ++ (key, v) :: after)
    (hkey : key.binary "==" k.toValue = .boolean true)
    (hafter : ∀ entry ∈ after, entry.1.binary "==" k.toValue ≠ .boolean true) :
    (Value.hash id (insertPairs [] keyed)).index k.toValue = v := by
  obtain ⟨first, rest, rfl, rfl, hrest⟩ := List.map_eq_append_iff.mp h
  obtain ⟨⟨a, u⟩, last, rfl, hentry, rfl⟩ := List.map_eq_cons_iff.mp hrest
  obtain ⟨rfl, rfl⟩ := Prod.mk.inj hentry
  obtain rfl : a = k := Value.equal_toValue_iff.mp hkey
  have hfound : (first ++ (a, u) :: last).reverse.lookup a = some u := by
    rw [List.lookup_eq_some_iff]
    exact ⟨last.reverse, first.reverse, by simp, bne_of_shown hafter⟩
  rw [index_literal, hfound]
  rfl

theorem index_literal_none {k : Key}
    (h : ∀ entry ∈ shown keyed, entry.1.binary "==" k.toValue ≠ .boolean true) :
    (Value.hash id (insertPairs [] keyed)).index k.toValue = .null := by
  have hnone : keyed.reverse.lookup k = none :=
    List.lookup_eq_none_iff.mpr (bne_of_shown h)
  rw [index_literal, hnone]
  rfl

end Literal

/-- A hash literal whose pairs are evaluated without an error, to keys that are integers, booleans
or texts, is the map in which the last pair for a key wins: asked for a key, the hash gives the
value of the last pair whose key is `==` to it, and null if there is none. It has one pair for
all keys that are `==` to each other, in the order in which these first came up. Hashes tell keys
apart exactly as `==` does. -/
theorem hash_literal_last_wins :
    (∀ (levels : Nat) (scope : ScopeId) (token : Token) (nodes : List (Node × Node))
        (m m' : Machine) (entries : List (Value × Value)),
      Eval.PairsDone (evaluate levels scope) nodes m entries m' →
      (∀ entry ∈ entries, entry.1.IsKey) →
      ∃ pairs, evaluate (levels + 1) scope (.hash token nodes) m =
          .done (some (.hash m'.nextId pairs)) { m' with nextId := m'.nextId + 1 } ∧
        pairs.map (fun pair => pair.1.toValue) =
          firsts Value.equals (entries.map Prod.fst) ∧
        ∀ k : Value, k.IsKey →
          (∀ before key v after, entries = before ++ (key, v) :: after →
            key.binary "==" k = .boolean true →
            (∀ entry ∈ after, entry.1.binary "==" k ≠ .boolean true) →
            (Value.hash m'.nextId pairs).index k = v) ∧
          ((∀ entry ∈ entries, entry.1.binary "==" k ≠ .boolean true) →
            (Value.hash m'.nextId pairs).index k = .null)) ∧
    ∀ a b : Value, a.IsKey → b.IsKey →
      (a.key? = b.key? ↔ a.binary "==" b = .boolean true) := by
  constructor
  · intro levels scope token nodes m m' entries hdone hkeys
    obtain ⟨keyed, rfl⟩ := exists_shown hkeys
    have hrun : evaluate (levels + 1) scope (.hash token nodes) m =
        .done (some (.hash m'.nextId (insertPairs [] keyed)))
          { m' with nextId := m'.nextId + 1 } := by
      rw [evaluate, Eval.bind_done (hdone.pairs_eq [])]
      rfl
    refine ⟨_, hrun, keys_literal, ?_⟩
    intro k hk
    obtain ⟨key, rfl⟩ := hk.exists_key
    exact ⟨fun _ _ _ _ => index_literal_last _, index_literal_none _⟩
  · intro a b ha hb
    obtain ⟨key, rfl⟩ := ha.exists_key
    obtain ⟨other, rfl⟩ := hb.exists_key
    rw [Value.key?_toValue, Value.key?_toValue, Option.some.injEq, Value.equal_toValue_iff]

/-- The pairs of `{1: 10, true: 20, 1: 30, "1": 40}`. -/
def repeatedKeys : List (Node × Node) :=
  [(.integer ⟨.number, "1", 1, 2⟩ 1, .integer ⟨.number, "10", 1, 5⟩ 10),
    (.boolean ⟨.keyword .trueWord, "true", 1, 9⟩ true, .integer ⟨.number, "20", 1, 15⟩ 20),
    (.integer ⟨.number, "1", 1, 19⟩ 1, .integer ⟨.number, "30", 1, 22⟩ 30),
    (.text ⟨.text, "1", 1, 26⟩ "1", .integer ⟨.number, "40", 1, 31⟩ 40)]

/-- The key `1` comes twice, and neither `true` nor the text is equal to it. -/
theorem hash_literal_last_wins_repeated :
    ∃ pairs, evaluate 2 0 (.hash ⟨.symbol .leftBrace, "\x7b", 1, 1⟩ repeatedKeys) .empty =
        .done (some (.hash 0 pairs)) { Machine.empty with nextId := 1 } ∧
      pairs.map (fun pair => pair.1.toValue) = [.integer 1, .boolean true, .text "1"] ∧
      (Value.hash 0 pairs).index (.integer 1) = .integer 30 ∧
      (Value.hash 0 pairs).index (.boolean false) = .null := by
  let entries : List (Value × Value) :=
    [(.integer 1, .integer 10), (.boolean true, .integer 20), (.integer 1, .integer 30),
      (.text "1", .integer 40)]
  have hdone : Eval.PairsDone (evaluate 1 0) repeatedKeys .empty entries .empty :=
    .cons rfl rfl rfl rfl (.cons rfl rfl rfl rfl (.cons rfl rfl rfl rfl
      (.cons rfl rfl rfl rfl .nil)))
  obtain ⟨pairs, hrun, hkeys, hindex⟩ :=
    hash_literal_last_wins.1 1 0 _ repeatedKeys .empty .empty entries hdone (by decide)
  refine ⟨pairs, hrun, hkeys.trans rfl, ?_, ?_⟩
  · apply (hindex (.integer 1) (by decide)).1 (entries.take 2) (.integer 1) _ (entries.drop 3)
    · rfl
    · rfl
    · simp [entries, Value.binary, Value.otherBinary, Value.same]
  · apply (hindex (.boolean false) (by decide)).2
    simp [entries, Value.binary, Value.otherBinary, Value.same]

end Scriptlet
