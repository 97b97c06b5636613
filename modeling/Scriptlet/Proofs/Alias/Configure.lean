import Mathlib.Data.List.Induction
import Scriptlet.Proofs.Alias.Words

/-!
One configuration. What is wrong with it is a matter of which words it gives which keywords and
of what the table has; the order in which it is read does not come into it. The invariant of the
reading is `Drafts`: a draft has no problem as long as the words so far can be added together,
and until then it has just these words.
-/

namespace Scriptlet

theorem Keyword.ofName?_eq_some_iff {name : String} {keyword : Keyword} :
    Keyword.ofName? name = some keyword ↔ name = keyword.name := by
  constructor
  · intro h
    have hfound := List.find?_some h
    exact (beq_iff_eq.mp hfound).symm
  · rintro rfl
    cases keyword <;> decide

namespace AliasTable

theorem keywordOf?_eq_some_iff {name : Json} {keyword : Keyword} :
    keywordOf? name = some keyword ↔ name = .text keyword.name := by
  cases name with
  | text name => simp [keywordOf?, Keyword.ofName?_eq_some_iff]
  | _ => simp [keywordOf?]

theorem keywordOf?_eq_none_iff {name : Json} :
    keywordOf? name = none ↔ ∀ keyword : Keyword, name ≠ .text keyword.name := by
  simp only [Option.eq_none_iff_forall_ne_some, ne_eq, keywordOf?_eq_some_iff]

variable {table pending : AliasTable} {word other : String} {keyword old : Keyword}

theorem lookup_replace (entries : List (String × Keyword)) (word : String) (keyword : Keyword)
    (other : String) :
    (entries.map fun entry => if entry.1 == word then (word, keyword) else entry).lookup other =
      if other = word then (entries.lookup word).map fun _ => keyword
      else entries.lookup other := by
  induction entries with
  | nil => simp
  | cons entry entries ih =>
      obtain ⟨first, found⟩ := entry
      rw [List.map_cons, List.lookup_cons, ih, List.lookup_cons, List.lookup_cons]
      by_cases hfirst : first = word
      · subst hfirst
        by_cases hother : other = first
        · simp [hother]
        · simp [hother, beq_eq_false_iff_ne.mpr hother]
      · by_cases hother : other = word
        · subst hother
          simp [hfirst, beq_eq_false_iff_ne.mpr (Ne.symm hfirst)]
        · simp [hfirst, hother]

/-- A word that is inserted stands for its keyword, and no other word is touched. -/
theorem get?_insert (table : AliasTable) (word : String) (keyword : Keyword) (other : String) :
    (table.insert word keyword).get? other =
      if other = word then some keyword else table.get? other := by
  unfold insert
  split
  next hthere =>
    obtain ⟨old, hold⟩ := Option.isSome_iff_exists.mp hthere
    simp only [get?] at hold ⊢
    rw [lookup_replace, hold]
    rfl
  next hnew =>
    have hnone : table.get? word = none := by simpa using hnew
    simp only [get?, List.lookup_append, List.lookup_cons, List.lookup_nil] at hnone ⊢
    by_cases hother : other = word
    · subst hother
      simp [hnone]
    · simp [hother, beq_eq_false_iff_ne.mpr hother]

/-- No word stands in the table twice. -/
def Distinct (table : AliasTable) : Prop :=
  (table.entries.map Prod.fst).Nodup

theorem distinct_empty : AliasTable.empty.Distinct :=
  List.nodup_nil

theorem mem_words_iff : word ∈ table.entries.map Prod.fst ↔ (table.get? word).isSome = true := by
  unfold get?
  induction table.entries with
  | nil => simp
  | cons entry entries ih =>
      rw [List.map_cons, List.mem_cons, ih, List.lookup_cons]
      by_cases hword : word = entry.1
      · simp [hword]
      · simp [hword, beq_eq_false_iff_ne.mpr hword]

theorem lookup_eq_none {entries : List (String × Keyword)}
    (h : word ∉ entries.map Prod.fst) : entries.lookup word = none := by
  by_contra hsome
  exact h ((@mem_words_iff ⟨entries⟩ word).mpr (Option.isSome_iff_ne_none.mpr hsome))

theorem Distinct.insert (h : table.Distinct) (word : String) (keyword : Keyword) :
    (table.insert word keyword).Distinct := by
  unfold AliasTable.insert
  split
  next =>
    have hwords : (table.entries.map fun entry =>
        if entry.1 == word then (word, keyword) else entry).map Prod.fst =
          table.entries.map Prod.fst := by
      rw [List.map_map]
      apply List.map_congr_left
      intro entry _
      by_cases hentry : entry.1 = word <;> simp [hentry]
    show List.Nodup _
    rw [hwords]
    exact h
  next hnew =>
    have hfresh : word ∉ table.entries.map Prod.fst := fun hmem => hnew (mem_words_iff.mp hmem)
    show List.Nodup _
    rw [List.map_append]
    refine List.nodup_append.mpr ⟨h, by simp, ?_⟩
    intro other hmem new hnew'
    rw [List.mem_singleton.mp hnew']
    exact ne_of_mem_of_not_mem hmem hfresh

/-- As no word is repeated, to be an entry and to be found are the same. -/
theorem Distinct.mem_iff (h : table.Distinct) :
    (word, keyword) ∈ table.entries ↔ table.get? word = some keyword := by
  unfold Distinct at h
  unfold get?
  induction hentries : table.entries generalizing table with
  | nil => simp
  | cons entry entries ih =>
      obtain ⟨first, found⟩ := entry
      rw [hentries, List.map_cons, List.nodup_cons] at h
      have hrest := @ih ⟨entries⟩ h.2 rfl
      rw [List.mem_cons, List.lookup_cons, hrest]
      by_cases hword : word = first
      · subst hword
        simp [lookup_eq_none h.1, eq_comm]
      · simp [hword, beq_eq_false_iff_ne.mpr hword]

/-- Words added one after the other, no word twice. -/
theorem get?_insertAll {entries : List (String × Keyword)}
    (h : (entries.map Prod.fst).Nodup) (table : AliasTable) (word : String) :
    (entries.foldl (fun t entry => t.insert entry.1 entry.2) table).get? word =
      (entries.lookup word).or (table.get? word) := by
  induction entries generalizing table with
  | nil => simp
  | cons entry entries ih =>
      rw [List.map_cons, List.nodup_cons] at h
      rw [List.foldl_cons, ih h.2, get?_insert, List.lookup_cons]
      by_cases hword : word = entry.1
      · simp [lookup_eq_none h.1, hword]
      · simp [hword, beq_eq_false_iff_ne.mpr hword]

theorem Distinct.insertAll (h : table.Distinct) (entries : List (String × Keyword)) :
    (entries.foldl (fun t entry => t.insert entry.1 entry.2) table).Distinct := by
  induction entries generalizing table with
  | nil => exact h
  | cons entry entries ih => exact ih (h.insert entry.1 entry.2)

/-- There is nothing to say against a word that could be an identifier, is not reserved and has no
other keyword. -/
theorem problem?_eq_none_iff :
    table.problem? pending word keyword = none ↔
      Text.isWord word.toList = true ∧ reservedKind? word = none ∧
        ∀ old, (pending.get? word).or (table.get? word) = some old → old = keyword := by
  unfold problem?
  cases hword : Text.isWord word.toList with
  | false => simp
  | true =>
      cases hreserved : reservedKind? word with
      | some kind => simp
      | none =>
          simp only [Option.orElse_eq_orElse, Option.orElse_eq_or]
          cases (pending.get? word).or (table.get? word) with
          | none => simp
          | some old => simp

/-- Words with keywords that can be added to a table together. -/
structure Admits (table : AliasTable) (given : List (String × Keyword)) : Prop where
  word : ∀ {word keyword}, (word, keyword) ∈ given →
    Text.isWord word.toList = true ∧ reservedKind? word = none
  kept : ∀ {word keyword old}, (word, keyword) ∈ given → table.get? word = some old →
    old = keyword
  agree : ∀ {word keyword other}, (word, keyword) ∈ given → (word, other) ∈ given →
    other = keyword

theorem Admits.mono {given more : List (String × Keyword)} (h : table.Admits more)
    (hsub : given ⊆ more) : table.Admits given where
  word hmem := h.word (hsub hmem)
  kept hmem := h.kept (hsub hmem)
  agree hmem hother := h.agree (hsub hmem) (hsub hother)

/-- A draft of which the words given so far have been read. -/
structure Drafts (table : AliasTable) (given : List (String × Keyword)) (draft : Draft) :
    Prop where
  distinct : draft.pending.Distinct
  fine : draft.problems = [] ↔ table.Admits given
  pending : table.Admits given → ∀ word keyword,
    draft.pending.get? word = some keyword ↔ (word, keyword) ∈ given

theorem drafts_empty (table : AliasTable) : Drafts table [] ⟨.empty, []⟩ where
  distinct := distinct_empty
  fine := ⟨fun _ => ⟨nofun, nofun, nofun⟩, fun _ => rfl⟩
  pending _ _ _ := by simp [get?, empty]

/-- One word more can be added if there is nothing to say against it. -/
theorem admits_snoc_iff {given : List (String × Keyword)} {draft : Draft}
    (h : Drafts table given draft) (hgiven : table.Admits given) :
    table.Admits (given ++ [(word, keyword)]) ↔
      table.problem? draft.pending word keyword = none := by
  have hlast : (word, keyword) ∈ given ++ [(word, keyword)] := by simp
  rw [problem?_eq_none_iff]
  constructor
  · intro hall
    refine ⟨(hall.word hlast).1, (hall.word hlast).2, ?_⟩
    intro old hold
    rcases Option.or_eq_some_iff.mp hold with hpending | ⟨_, htable⟩
    · have hmem := (h.pending hgiven word old).mp hpending
      exact hall.agree hlast (List.mem_append_left _ hmem)
    · exact hall.kept hlast htable
  · rintro ⟨hword, hreserved, hold⟩
    have hearlier {other : Keyword} (hmem : (word, other) ∈ given) : other = keyword := by
      apply hold
      rw [(h.pending hgiven word other).mpr hmem]
      rfl
    have htable {old : Keyword} (hget : table.get? word = some old) : old = keyword := by
      cases hpending : draft.pending.get? word with
      | none => exact hold old (by rw [hpending, hget]; rfl)
      | some other =>
          have hmem := (h.pending hgiven word other).mp hpending
          rw [hgiven.kept hmem hget, hearlier hmem]
    constructor
    · intro w k hmem
      rcases List.mem_append.mp hmem with hgiven' | hnew
      · exact hgiven.word hgiven'
      · obtain ⟨rfl, rfl⟩ := Prod.mk.inj (List.mem_singleton.mp hnew)
        exact ⟨hword, hreserved⟩
    · intro w k old hmem hget
      rcases List.mem_append.mp hmem with hgiven' | hnew
      · exact hgiven.kept hgiven' hget
      · obtain ⟨rfl, rfl⟩ := Prod.mk.inj (List.mem_singleton.mp hnew)
        exact htable hget
    · intro w k other hmem hother
      rcases List.mem_append.mp hmem with hfirst | hfirst <;>
        rcases List.mem_append.mp hother with hsecond | hsecond
      · exact hgiven.agree hfirst hsecond
      · obtain ⟨rfl, rfl⟩ := Prod.mk.inj (List.mem_singleton.mp hsecond)
        exact (hearlier hfirst).symm
      · obtain ⟨rfl, rfl⟩ := Prod.mk.inj (List.mem_singleton.mp hfirst)
        exact hearlier hsecond
      · obtain ⟨rfl, rfl⟩ := Prod.mk.inj (List.mem_singleton.mp hfirst)
        exact (Prod.mk.inj (List.mem_singleton.mp hsecond)).2

/-- The step of the reading: one word more has been read. -/
theorem Drafts.addWord {given : List (String × Keyword)} {draft : Draft}
    (h : Drafts table given draft) (word : String) (keyword : Keyword) :
    Drafts table (given ++ [(word, keyword)]) (table.addWord keyword draft word) := by
  have hbefore : table.Admits (given ++ [(word, keyword)]) → table.Admits given :=
    fun hall => hall.mono (List.subset_append_left _ _)
  unfold AliasTable.addWord
  split
  next problem hproblem =>
    have hnot : ¬ table.Admits (given ++ [(word, keyword)]) := by
      intro hall
      rw [(admits_snoc_iff h (hbefore hall)).mp hall] at hproblem
      cases hproblem
    exact ⟨h.distinct, by simp [hnot], fun hall => absurd hall hnot⟩
  next hproblem =>
    refine ⟨h.distinct.insert word keyword, ?_, ?_⟩
    · rw [h.fine]
      exact ⟨fun hgiven => (admits_snoc_iff h hgiven).mpr hproblem, hbefore⟩
    · intro hall w k
      rw [get?_insert]
      split
      next hw =>
        subst hw
        constructor
        · intro hk
          rw [Option.some.inj hk]
          simp
        · intro hmem
          rw [hall.agree hmem (List.mem_append_right _ List.mem_cons_self)]
      next hw => simp [h.pending (hbefore hall), hw]

/-- The draft after words with their keywords. -/
def draftOf (table : AliasTable) (given : List (String × Keyword)) : Draft :=
  given.foldl (fun draft entry => table.addWord entry.2 draft entry.1) ⟨.empty, []⟩

/-- The run, by induction from the end: all words have been read. -/
theorem drafts_draftOf (table : AliasTable) (given : List (String × Keyword)) :
    Drafts table given (table.draftOf given) := by
  induction given using List.reverseRecOn with
  | nil => exact drafts_empty table
  | append_singleton given entry ih =>
      rw [draftOf, List.foldl_append]
      exact ih.addWord entry.1 entry.2

end AliasTable

namespace AliasConfig

/-- A configuration gives a word a keyword: the word is in a group that stands with the
keyword's name. -/
def Gives (config : AliasConfig) (word : String) (keyword : Keyword) : Prop :=
  ∃ group, (group, Json.text keyword.name) ∈ config.entries ∧ group.Mentions word

/-- What is wrong with a configuration, for a table. -/
inductive Faulty (config : AliasConfig) (table : AliasTable) : Prop where
  | unknownName {group : AliasGroup} {name : Json} (hentry : (group, name) ∈ config.entries)
      (hname : ∀ keyword : Keyword, name ≠ .text keyword.name)
  | notWord {group : AliasGroup} {name : Json} {word : String}
      (hentry : (group, name) ∈ config.entries) (hword : group.Mentions word)
      (hnot : ¬ Text.isWord word.toList = true)
  | reserved {group : AliasGroup} {name : Json} {word : String} {kind : Kind}
      (hentry : (group, name) ∈ config.entries) (hword : group.Mentions word)
      (hreserved : reservedKind? word = some kind)
  | taken {word : String} {keyword old : Keyword} (hgives : config.Gives word keyword)
      (hold : table.get? word = some old) (hne : old ≠ keyword)
  | divided {word : String} {keyword other : Keyword} (hgives : config.Gives word keyword)
      (hother : config.Gives word other) (hne : other ≠ keyword)

/-- The words of entries with their keywords, in the order in which they are read. -/
def given (entries : List (AliasGroup × Json)) : List (String × Keyword) :=
  entries.flatMap fun entry =>
    match AliasTable.keywordOf? entry.2 with
    | some keyword => entry.1.toWords.map (·, keyword)
    | none => []

/-- Read one after the other or looked at together, the words of a configuration are the same. -/
theorem mem_given_iff {config : AliasConfig} {word : String} {keyword : Keyword} :
    (word, keyword) ∈ given config.entries ↔ config.Gives word keyword := by
  simp only [given, List.mem_flatMap]
  constructor
  · rintro ⟨⟨group, name⟩, hentry, hmem⟩
    cases hname : AliasTable.keywordOf? name with
    | none => simp [hname] at hmem
    | some found =>
        simp only [hname, List.mem_map, Prod.mk.injEq] at hmem
        obtain ⟨_, hword, rfl, rfl⟩ := hmem
        rw [AliasTable.keywordOf?_eq_some_iff] at hname
        exact ⟨group, hname ▸ hentry, AliasGroup.mem_toWords_iff.mp hword⟩
  · rintro ⟨group, hentry, hword⟩
    refine ⟨_, hentry, ?_⟩
    rw [AliasTable.keywordOf?_eq_some_iff.mpr rfl]
    exact List.mem_map.mpr ⟨word, AliasGroup.mem_toWords_iff.mpr hword, rfl⟩

end AliasConfig

namespace AliasTable

variable {table : AliasTable} {word : String} {keyword : Keyword} {config : AliasConfig}

/-- A computation goes on from the table that its first part leaves, unless that gives up. -/
theorem carryOut_bind {α β : Type} (table : AliasTable) (c : Configuring α)
    (next : α → Configuring β) :
    table.carryOut (c >>= next) =
      match table.carryOut c with
      | (.ok a, left) => left.carryOut (next a)
      | (.error reason, left) => (.error reason, left) := by
  have hbind : table.carryOut (c >>= next) =
      match table.carryOut c with
      | (result, left) => (ExceptT.bindCont next result).run left := rfl
  rw [hbind]
  obtain ⟨result, left⟩ := table.carryOut c
  cases result <;> rfl

/-- Reading entries leaves the table as it is, whether it comes to the end or gives up. -/
theorem carryOut_drafted (table : AliasTable) (entries : List (AliasGroup × Json))
    (draft : Draft) : (table.carryOut (drafted entries draft)).2 = table := by
  induction entries generalizing draft with
  | nil => rfl
  | cons first entries ih =>
      obtain ⟨group, name⟩ := first
      unfold drafted
      cases keywordOf? name with
      | none => rfl
      | some keyword => exact ih _

/-- A name that is no keyword's ends the reading, wherever it stands. -/
theorem drafted_of_unknown {entries : List (AliasGroup × Json)} {entry : AliasGroup × Json}
    (hentry : entry ∈ entries) (h : keywordOf? entry.2 = none) (table : AliasTable)
    (draft : Draft) : ∃ reason, (table.carryOut (drafted entries draft)).1 = .error reason := by
  induction entries generalizing draft with
  | nil => cases hentry
  | cons first entries ih =>
      obtain ⟨group, name⟩ := first
      unfold drafted
      cases hname : keywordOf? name with
      | none => exact ⟨_, rfl⟩
      | some keyword =>
          rcases List.mem_cons.mp hentry with rfl | hrest
          · rw [h] at hname
            cases hname
          · exact ih hrest _

/-- Otherwise the words of all entries are read in turn. -/
theorem drafted_of_known {entries : List (AliasGroup × Json)}
    (h : ∀ entry ∈ entries, keywordOf? entry.2 ≠ none) (table : AliasTable) (draft : Draft) :
    (table.carryOut (drafted entries draft)).1 = .ok ((AliasConfig.given entries).foldl
      (fun draft entry => table.addWord entry.2 draft entry.1) draft) := by
  induction entries generalizing draft with
  | nil => rfl
  | cons first entries ih =>
      obtain ⟨group, name⟩ := first
      rw [List.forall_mem_cons] at h
      obtain ⟨keyword, hname⟩ := Option.ne_none_iff_exists'.mp h.1
      have hgiven : AliasConfig.given ((group, name) :: entries) =
          group.toWords.map (·, keyword) ++ AliasConfig.given entries := by
        simp [AliasConfig.given, hname]
      rw [hgiven, List.foldl_append, List.foldl_map, drafted, hname]
      exact ih h.2 _

/-- A configuration without fault has known names only, and its words can be added together. -/
theorem not_faulty_iff :
    ¬ config.Faulty table ↔ (∀ entry ∈ config.entries, keywordOf? entry.2 ≠ none) ∧
      table.Admits (AliasConfig.given config.entries) := by
  constructor
  · intro h
    have hknown : ∀ entry ∈ config.entries, keywordOf? entry.2 ≠ none :=
      fun entry hentry hnone => h (.unknownName hentry (keywordOf?_eq_none_iff.mp hnone))
    refine ⟨hknown, ?_, ?_, ?_⟩
    · intro word keyword hmem
      obtain ⟨group, hentry, hword⟩ := AliasConfig.mem_given_iff.mp hmem
      constructor
      · by_contra hnot
        exact h (.notWord hentry hword hnot)
      · by_contra hreserved
        obtain ⟨kind, hkind⟩ := Option.ne_none_iff_exists'.mp hreserved
        exact h (.reserved hentry hword hkind)
    · intro word keyword old hmem hold
      by_contra hne
      exact h (.taken (AliasConfig.mem_given_iff.mp hmem) hold hne)
    · intro word keyword other hmem hother
      by_contra hne
      exact h (.divided (AliasConfig.mem_given_iff.mp hmem)
        (AliasConfig.mem_given_iff.mp hother) hne)
  · rintro ⟨hknown, hadmits⟩ hfaulty
    -- a word of a group is given some keyword, since the name that stands there is known
    have hgiven {group : AliasGroup} {name : Json} {word : String}
        (hentry : (group, name) ∈ config.entries) (hword : group.Mentions word) :
        ∃ keyword, (word, keyword) ∈ AliasConfig.given config.entries := by
      obtain ⟨keyword, hname⟩ := Option.ne_none_iff_exists'.mp (hknown _ hentry)
      rw [keywordOf?_eq_some_iff] at hname
      exact ⟨keyword, AliasConfig.mem_given_iff.mpr ⟨group, hname ▸ hentry, hword⟩⟩
    cases hfaulty with
    | unknownName hentry hname => exact hknown _ hentry (keywordOf?_eq_none_iff.mpr hname)
    | notWord hentry hword hnot =>
        obtain ⟨keyword, hmem⟩ := hgiven hentry hword
        exact hnot (hadmits.word hmem).1
    | reserved hentry hword hreserved =>
        obtain ⟨keyword, hmem⟩ := hgiven hentry hword
        rw [(hadmits.word hmem).2] at hreserved
        cases hreserved
    | taken hgives hold hne => exact hne (hadmits.kept (AliasConfig.mem_given_iff.mpr hgives) hold)
    | divided hgives hother hne =>
        exact hne (hadmits.agree (AliasConfig.mem_given_iff.mpr hgives)
          (AliasConfig.mem_given_iff.mpr hother))

/-- The table changes in one step, after all that can go wrong. -/
theorem carryOut_configuring (table : AliasTable) (config : AliasConfig) :
    table.carryOut (configuring config) =
      match (table.carryOut (drafted config.entries ⟨.empty, []⟩)).1 with
      | .error reason => (.error reason, table)
      | .ok draft =>
        if draft.problems.isEmpty then
          (.ok draft.pending,
            draft.pending.entries.foldl (fun t entry => t.insert entry.1 entry.2) table)
        else (.error (.collisions draft.problems), table) := by
  have hleft := table.carryOut_drafted config.entries ⟨.empty, []⟩
  rw [configuring, carryOut_bind]
  rcases hrun : table.carryOut (drafted config.entries ⟨.empty, []⟩) with ⟨result, left⟩
  obtain rfl : left = table := by rw [← hleft, hrun]
  cases result with
  | error reason => rfl
  | ok draft =>
      dsimp only
      split <;> rfl

/-- A configuration that is not taken leaves the table as it was. -/
theorem configuring_failed {left : AliasTable} {reason : AliasError}
    (h : table.carryOut (configuring config) = (.error reason, left)) : left = table := by
  rw [carryOut_configuring] at h
  split at h
  next => exact (Prod.mk.inj h).2.symm
  next =>
    split at h
    next => cases (Prod.mk.inj h).1
    next => exact (Prod.mk.inj h).2.symm

theorem configuringJson_failed {value : Json} {left : AliasTable} {reason : AliasError}
    (h : table.carryOut (configuringJson value) = (.error reason, left)) : left = table := by
  unfold configuringJson at h
  split at h
  next => exact configuring_failed h
  next => exact (Prod.mk.inj h).2.symm

/-- So does a file that cannot be read, that holds no JSON, or of which the configuration is not
taken. -/
theorem loading_failed {files : Files} {path : String} {left : AliasTable} {reason : AliasError}
    (h : table.carryOut (loading files path) = (.error reason, left)) : left = table := by
  unfold loading at h
  split at h
  next => exact (Prod.mk.inj h).2.symm
  next =>
    split at h
    next => exact (Prod.mk.inj h).2.symm
    next => exact configuringJson_failed h

theorem configure_of_known (h : ∀ entry ∈ config.entries, keywordOf? entry.2 ≠ none) :
    table.configure config =
      let draft := table.draftOf (AliasConfig.given config.entries)
      if draft.problems.isEmpty then
        .ok (draft.pending.entries.foldl (fun t entry => t.insert entry.1 entry.2) table,
          draft.pending)
      else .error (.collisions draft.problems) := by
  have hdraft : (table.carryOut (drafted config.entries ⟨.empty, []⟩)).1 =
      .ok (table.draftOf (AliasConfig.given config.entries)) := drafted_of_known h table _
  rw [configure, outcome, carryOut_configuring, hdraft]
  dsimp only
  cases (table.draftOf (AliasConfig.given config.entries)).problems.isEmpty <;> rfl

/-- A faulty configuration is not taken. -/
theorem configure_of_faulty (h : config.Faulty table) :
    ∃ reason, table.configure config = .error reason := by
  by_cases hknown : ∀ entry ∈ config.entries, keywordOf? entry.2 ≠ none
  · have hdraft := drafts_draftOf table (AliasConfig.given config.entries)
    have hproblems := hdraft.fine.not.mpr
      fun hadmits => not_faulty_iff.mpr ⟨hknown, hadmits⟩ h
    refine ⟨.collisions (table.draftOf (AliasConfig.given config.entries)).problems, ?_⟩
    rw [configure_of_known hknown]
    exact if_neg (List.isEmpty_iff.not.mpr hproblems)
  · push Not at hknown
    obtain ⟨entry, hentry, hnone⟩ := hknown
    obtain ⟨reason, hreason⟩ := drafted_of_unknown hentry hnone table ⟨.empty, []⟩
    refine ⟨reason, ?_⟩
    rw [configure, outcome, carryOut_configuring, hreason]

/-- Adding what a table has is no change. -/
theorem insert_of_get? (hdistinct : table.Distinct) (h : table.get? word = some keyword) :
    table.insert word keyword = table := by
  have hsame : table.entries.map
      (fun entry => if entry.1 == word then (word, keyword) else entry) = table.entries := by
    rw [List.map_congr_left (g := id), List.map_id]
    rintro ⟨first, found⟩ hmem
    by_cases hfirst : first = word
    · subst hfirst
      have hfound := hdistinct.mem_iff.mp hmem
      rw [h] at hfound
      simp [Option.some.inj hfound]
    · simp [hfirst]
  rw [insert, h, Option.isSome_some, if_pos rfl, hsame]

/-- Words that are new to a table, or have their keywords there, are added behind its own. -/
theorem entries_insertAll {entries : List (String × Keyword)} (hdistinct : table.Distinct)
    (hnodup : (entries.map Prod.fst).Nodup)
    (h : ∀ word keyword old, (word, keyword) ∈ entries → table.get? word = some old →
      old = keyword) :
    table.entries <+:
      (entries.foldl (fun t entry => t.insert entry.1 entry.2) table).entries := by
  induction entries generalizing table with
  | nil => exact List.prefix_rfl
  | cons entry entries ih =>
      obtain ⟨word, keyword⟩ := entry
      rw [List.map_cons, List.nodup_cons] at hnodup
      have hstep : table.entries <+: (table.insert word keyword).entries := by
        cases hold : table.get? word with
        | none => simp [insert, hold]
        | some old =>
            rw [h word keyword old List.mem_cons_self hold] at hold
            exact (insert_of_get? hdistinct hold).symm ▸ List.prefix_rfl
      apply hstep.trans
      apply ih (hdistinct.insert word keyword) hnodup.2
      intro other found old hmem hold
      have hother : other ≠ word := by
        rintro rfl
        exact hnodup.1 (List.mem_map.mpr ⟨_, hmem, rfl⟩)
      rw [get?_insert, if_neg hother] at hold
      exact h other found old (List.mem_cons_of_mem _ hmem) hold

/-- A table that has its own words and those of a configuration, its own first. -/
structure Extends (table : AliasTable) (config : AliasConfig) (result : AliasTable) : Prop where
  old : table.entries <+: result.entries
  get? (word : String) (keyword : Keyword) : result.get? word = some keyword ↔
    config.Gives word keyword ∨ table.get? word = some keyword

/-- Any other is taken as a whole. -/
theorem configure_of_not_faulty (hdistinct : table.Distinct) (h : ¬ config.Faulty table) :
    ∃ result added, table.configure config = .ok (result, added) ∧ result.Distinct ∧
      table.Extends config result := by
  obtain ⟨hknown, hadmits⟩ := not_faulty_iff.mp h
  have hdraft := drafts_draftOf table (AliasConfig.given config.entries)
  have hproblems := List.isEmpty_iff.mpr (hdraft.fine.mpr hadmits)
  refine ⟨_, _, (configure_of_known hknown).trans (if_pos hproblems),
    hdistinct.insertAll _, ?_, ?_⟩
  · apply entries_insertAll hdistinct hdraft.distinct
    intro word keyword old hmem hold
    have hgiven := (hdraft.pending hadmits word keyword).mp (hdraft.distinct.mem_iff.mp hmem)
    exact hadmits.kept hgiven hold
  · intro word keyword
    rw [get?_insertAll hdraft.distinct, ← AliasConfig.mem_given_iff,
      ← hdraft.pending hadmits word keyword]
    show (AliasTable.get? _ word).or _ = _ ↔ _
    cases hword : AliasTable.get? _ word with
    | none => simp
    | some found =>
        have hgiven := (hdraft.pending hadmits word found).mp hword
        simp only [Option.some_or, Option.some.injEq]
        constructor
        · exact .inl
        · rintro (hfound | hold)
          · exact hfound
          · exact (hadmits.kept hgiven hold).symm

end AliasTable

end Scriptlet
