import Scriptlet.Proofs.Alias.Configure

/-!
Configuring aliases over and over. A request that is refused leaves the table alone, and any
other adds all its words. So the words of a table are identifiers that are not reserved, and a
word never gets another keyword than its first.
-/

namespace Scriptlet

/-- What is handed over to be configured: groups with names, or a value. -/
inductive AliasRequest where
  | groups (config : AliasConfig)
  | json (value : Json)

namespace AliasRequest

def config? : AliasRequest → Option AliasConfig
  | .groups config => some config
  | .json value => AliasConfig.ofJson? value

/-- A request that a table does not take: it is no configuration, or a faulty one. -/
def Refused (request : AliasRequest) (table : AliasTable) : Prop :=
  ∀ config, request.config? = some config → config.Faulty table

end AliasRequest

namespace AliasTable

def attempting : AliasRequest → Configuring AliasTable
  | .groups config => configuring config
  | .json value => configuringJson value

def attempt (table : AliasTable) : AliasRequest → Except AliasError (AliasTable × AliasTable)
  | .groups config => table.configure config
  | .json value => table.configureJson value

/-- The table that a request leaves, whether it was taken or not. -/
def after (table : AliasTable) (request : AliasRequest) : AliasTable :=
  (table.carryOut (attempting request)).2

/-- The table after requests, the first of which finds an empty one. -/
def afterAll (requests : List AliasRequest) : AliasTable :=
  requests.foldl after .empty

/-- No word twice, and only words that can be aliases. -/
structure Sound (table : AliasTable) : Prop where
  distinct : table.Distinct
  words : ∀ {word : String} {keyword : Keyword}, table.get? word = some keyword →
    Text.isWord word.toList = true ∧ reservedKind? word = none

variable {table : AliasTable} {word : String} {keyword : Keyword} {config : AliasConfig}
  {request : AliasRequest}

theorem attempt_eq_outcome (table : AliasTable) (request : AliasRequest) :
    table.attempt request = table.outcome (attempting request) := by
  cases request <;> rfl

/-- A request that fails leaves the table as it was. -/
theorem after_of_error {reason : AliasError} (h : table.attempt request = .error reason) :
    table.after request = table := by
  rw [attempt_eq_outcome, outcome] at h
  unfold after
  rcases hrun : table.carryOut (attempting request) with ⟨result, left⟩
  rw [hrun] at h
  cases result with
  | ok added => cases h
  | error reason =>
      cases request with
      | groups config => exact configuring_failed hrun
      | json value => exact configuringJson_failed hrun

/-- A request that is taken leaves the table that it gives. -/
theorem after_of_ok {result added : AliasTable}
    (h : table.attempt request = .ok (result, added)) : table.after request = result := by
  rw [attempt_eq_outcome, outcome] at h
  unfold after
  rcases hrun : table.carryOut (attempting request) with ⟨found, left⟩
  rw [hrun] at h
  cases found with
  | ok words => exact (Prod.mk.inj (Except.ok.inj h)).1
  | error reason => cases h

/-- A value that is an object is configured like groups. -/
theorem attempt_eq (table : AliasTable) (request : AliasRequest) :
    table.attempt request =
      match request.config? with
      | some config => table.configure config
      | none => .error .notObject := by
  cases request with
  | groups config => rfl
  | json value =>
      show table.outcome (configuringJson value) = match AliasConfig.ofJson? value with
        | some config => table.configure config
        | none => .error .notObject
      unfold configuringJson
      cases AliasConfig.ofJson? value <;> rfl

/-- The two ways a request can end. -/
theorem attempt_cases (hdistinct : table.Distinct) (request : AliasRequest) :
    (request.Refused table ∧ (∃ reason, table.attempt request = .error reason) ∧
      table.after request = table) ∨
    (∃ config added, request.config? = some config ∧ ¬ config.Faulty table ∧
      table.attempt request = .ok (table.after request, added) ∧
      (table.after request).Distinct ∧ table.Extends config (table.after request)) := by
  have hrefused {reason : AliasError} (h : table.attempt request = .error reason) :
      (∃ reason, table.attempt request = .error reason) ∧ table.after request = table :=
    ⟨⟨reason, h⟩, after_of_error h⟩
  have hattempt := table.attempt_eq request
  cases hconfig : request.config? with
  | none =>
      rw [hconfig] at hattempt
      refine .inl ⟨?_, hrefused hattempt⟩
      intro config h
      rw [hconfig] at h
      cases h
  | some config =>
      rw [hconfig] at hattempt
      by_cases hfaulty : config.Faulty table
      · obtain ⟨reason, hreason⟩ := configure_of_faulty hfaulty
        refine .inl ⟨?_, hrefused (hattempt.trans hreason)⟩
        intro other hother
        rw [hconfig] at hother
        exact Option.some.inj hother ▸ hfaulty
      · obtain ⟨result, added, hok, hresult, hextends⟩ :=
          configure_of_not_faulty hdistinct hfaulty
        have hafter : table.after request = result := after_of_ok (hattempt.trans hok)
        rw [hafter]
        exact .inr ⟨config, added, rfl, hfaulty, hattempt.trans hok, hresult, hextends⟩

/-- What one request preserves, taken or not. -/
theorem Sound.after (h : table.Sound) (request : AliasRequest) : (table.after request).Sound := by
  obtain ⟨-, -, hsame⟩ | ⟨config, added, -, hfine, -, hdistinct, hextends⟩ :=
    attempt_cases h.distinct request
  · rw [hsame]
    exact h
  · refine ⟨hdistinct, ?_⟩
    intro word keyword hget
    rcases (hextends.get? word keyword).mp hget with hgives | hold
    · exact (not_faulty_iff.mp hfine).2.word (AliasConfig.mem_given_iff.mpr hgives)
    · exact h.words hold

/-- What any requests preserve, one after the other. -/
theorem sound_afterAll (requests : List AliasRequest) : (afterAll requests).Sound := by
  have hempty : AliasTable.empty.Sound := ⟨distinct_empty, nofun⟩
  unfold afterAll
  induction requests using List.reverseRecOn with
  | nil => exact hempty
  | append_singleton requests request ih =>
      rw [List.foldl_append]
      exact ih.after request

/-- A request gives no word of the table another keyword. -/
theorem get?_after (hdistinct : table.Distinct) (request : AliasRequest)
    (h : table.get? word = some keyword) : (table.after request).get? word = some keyword := by
  obtain ⟨-, -, hsame⟩ | ⟨_, _, -, -, -, -, hextends⟩ := attempt_cases hdistinct request
  · rw [hsame]
    exact h
  · exact (hextends.get? word keyword).mpr (.inr h)

theorem get?_afterAll_append (requests later : List AliasRequest)
    (h : (afterAll requests).get? word = some keyword) :
    (afterAll (requests ++ later)).get? word = some keyword := by
  induction later using List.reverseRecOn with
  | nil => rwa [List.append_nil]
  | append_singleton later request ih =>
      rw [← List.append_assoc, afterAll, List.foldl_append]
      exact get?_after (sound_afterAll _).distinct request ih

end AliasTable

namespace AliasConfig

variable {table : AliasTable} {config other : AliasConfig}

theorem Gives.perm (h : config.entries.Perm other.entries) {word : String} {keyword : Keyword}
    (hgives : config.Gives word keyword) : other.Gives word keyword := by
  obtain ⟨group, hentry, hword⟩ := hgives
  exact ⟨group, h.mem_iff.mp hentry, hword⟩

/-- No fault is about the order of the entries. -/
theorem Faulty.perm (h : config.entries.Perm other.entries) (hfaulty : config.Faulty table) :
    other.Faulty table := by
  cases hfaulty with
  | unknownName hentry hname => exact .unknownName (h.mem_iff.mp hentry) hname
  | notWord hentry hword hnot => exact .notWord (h.mem_iff.mp hentry) hword hnot
  | reserved hentry hword hreserved => exact .reserved (h.mem_iff.mp hentry) hword hreserved
  | taken hgives hold hne => exact .taken (hgives.perm h) hold hne
  | divided hgives hother hne => exact .divided (hgives.perm h) (hother.perm h) hne

end AliasConfig

namespace AliasTable

/-- The order of the entries of a configuration does not matter. -/
theorem attempt_perm {table : AliasTable} (hdistinct : table.Distinct)
    {first second : AliasRequest} {config other : AliasConfig}
    (hfirst : first.config? = some config) (hsecond : second.config? = some other)
    (hperm : config.entries.Perm other.entries) :
    ((∃ result, table.attempt first = .ok result) ↔ ∃ result, table.attempt second = .ok result) ∧
      (table.after first).get? = (table.after second).get? := by
  obtain ⟨hrefused, ⟨reason, herror⟩, hsame⟩ | ⟨_, added, hconfig, hfine, hok, -, hextends⟩ :=
      attempt_cases hdistinct first <;>
    obtain ⟨hrefused', ⟨reason', herror'⟩, hsame'⟩ | ⟨_, added', hconfig', hfine', hok', -,
      hextends'⟩ := attempt_cases hdistinct second
  · rw [hsame, hsame', herror, herror']
    simp
  · rw [hsecond] at hconfig'
    cases hconfig'
    exact absurd ((hrefused _ hfirst).perm hperm) hfine'
  · rw [hfirst] at hconfig
    cases hconfig
    exact absurd ((hrefused' _ hsecond).perm hperm.symm) hfine
  · rw [hfirst] at hconfig
    rw [hsecond] at hconfig'
    cases hconfig
    cases hconfig'
    refine ⟨by simp [hok, hok'], ?_⟩
    funext word
    apply Option.ext
    intro keyword
    rw [hextends.get?, hextends'.get?]
    exact or_congr_left ⟨fun h => h.perm hperm, fun h => h.perm hperm.symm⟩

/-- After any requests, a request fails and leaves the table as it was exactly if it is no
configuration or a faulty one; otherwise the table gets all its words. The words of the table
are identifiers that are not reserved, they keep their keywords whatever comes later, and the
order of the entries of a configuration makes no difference. -/
theorem configuring_is_atomic (requests : List AliasRequest) (request : AliasRequest) :
    let table := afterAll requests
    ((∃ reason, table.attempt request = .error reason) ∧ table.after request = table ↔
      request.Refused table) ∧
    (¬ request.Refused table → ∃ config added, request.config? = some config ∧
      table.attempt request = .ok (table.after request, added) ∧
      table.Extends config (table.after request)) ∧
    table.Sound ∧
    (∀ later word keyword, table.get? word = some keyword →
      (afterAll (requests ++ later)).get? word = some keyword) ∧
    (∀ second config other, request.config? = some config → second.config? = some other →
      config.entries.Perm other.entries →
      ((∃ result, table.attempt request = .ok result) ↔
        ∃ result, table.attempt second = .ok result) ∧
      (table.after request).get? = (table.after second).get?) := by
  intro table
  have hsound : table.Sound := sound_afterAll requests
  have hcases := attempt_cases hsound.distinct request
  refine ⟨?_, ?_, hsound, ?_, ?_⟩
  · constructor
    · rintro ⟨⟨reason, hreason⟩, -⟩
      rcases hcases with ⟨hrefused, -⟩ | ⟨config, added, -, -, hok, -⟩
      · exact hrefused
      · rw [hok] at hreason
        cases hreason
    · intro hrefused
      rcases hcases with ⟨-, hfails⟩ | ⟨config, added, hconfig, hfine, -⟩
      · exact hfails
      · exact absurd (hrefused config hconfig) hfine
  · intro htaken
    rcases hcases with ⟨hrefused, -⟩ | ⟨config, added, hconfig, -, hok, -, hextends⟩
    · exact absurd hrefused htaken
    · exact ⟨config, added, hconfig, hok, hextends⟩
  · intro later word keyword hword
    exact get?_afterAll_append requests later hword
  · intro second config other hfirst hsecond hperm
    exact attempt_perm hsound.distinct hfirst hsecond hperm

theorem aliases_in_either_order :
    let requests : List AliasRequest := [.json (.object [("function, lambda", .text "FUNC")])]
    let yes := (AliasGroup.words "yes", Json.text "TRUE")
    let make := (AliasGroup.list [.words "function", .words "make"], Json.text "FUNC")
    let first := AliasRequest.groups ⟨[yes, make]⟩
    let second := AliasRequest.groups ⟨[make, yes]⟩
    let table := afterAll requests
    ((∃ config added, first.config? = some config ∧
      table.attempt first = .ok (table.after first, added) ∧
      table.Extends config (table.after first)) ∧
    (afterAll (requests ++ [first])).get? "lambda" = some .fnWord ∧
    (table.after first).get? = (table.after second).get?) := by
  intro requests yes make first second table
  obtain ⟨hfails, htaken, -, hkept, horder⟩ := configuring_is_atomic requests first
  have hok : (table.attempt first).isOk = true := by decide +kernel
  refine ⟨htaken ?_, hkept [first] "lambda" .fnWord (by decide +kernel),
    (horder second _ _ rfl rfl (List.Perm.swap _ _ _)).2⟩
  intro hrefused
  obtain ⟨⟨reason, herror⟩, -⟩ := hfails.mpr hrefused
  have hbad : (table.attempt first).isOk = false := congrArg Except.isOk herror
  rw [hok] at hbad
  cases hbad

end AliasTable

end Scriptlet
