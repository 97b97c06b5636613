import Scriptlet.Proofs.Grammar.Position
import Scriptlet.Proofs.Print.Spelling
import Scriptlet.Proofs.Tree.Rules

/-!
The canonical text of a tree spells the tree. Whatever tokens a phrase was derived
from, the text of its tree is read as tokens that derive an equal tree again, an
expression always at the tightest level: operators stand in parentheses of their
own, and everything else is a primary to begin with.
-/

namespace Scriptlet

open Lexer

/-- The members of a list behind the first, each behind a comma. -/
def tailText (items : List String) : List Char :=
  items.flatMap fun item => ',' :: ' ' :: item.toList

/-- A list of items is its first and a tail, as the grammar has it. -/
theorem joinItems_cons (item : String) (items : List String) :
    (Node.joinItems (item :: items)).toList = item.toList ++ tailText items := by
  induction items generalizing item with
  | nil => simp [Node.joinItems, tailText]
  | cons next items ih =>
      rw [Node.joinItems, String.intercalate_cons_cons, String.toList_append,
        String.toList_append]
      have hnext := ih next
      rw [Node.joinItems] at hnext
      rw [hnext]
      simp [tailText]

theorem tailText_cons (item : String) (items : List String) :
    tailText (item :: items) =
      Symbol.comma.lexeme.toList ++ ' ' :: (Node.joinItems (item :: items)).toList := by
  rw [joinItems_cons]
  simp [tailText, Symbol.lexeme]

/-- Behind an item comes a comma or the end, which make no token longer. -/
theorem apart_tailText (items : List String) : Apart (tailText items) := by
  cases items with
  | nil => simp [Apart, tailText]
  | cons item items =>
      intro c hc
      obtain rfl : ',' = c := by simpa [tailText] using hc
      decide

namespace Phrase

/-- The canonical text of what a phrase derives. -/
def text : Phrase → List Char
  | .expr _ tree | .block tree | .statement tree => tree.render.toList
  | .items trees => (Node.joinItems (Node.renderAll trees)).toList
  | .itemsTail trees => tailText (Node.renderAll trees)
  | .pairs entries => (Node.joinItems (Node.renderPairs entries)).toList
  | .pairsTail entries => tailText (Node.renderPairs entries)
  | .names ids => (Node.joinItems (ids.map Ident.name)).toList
  | .namesTail ids => tailText (ids.map Ident.name)
  | .statements trees => (Node.joinStatements (Node.renderAll trees)).toList

/-- The tokens derive an equal phrase, an expression at the tightest level. -/
def Copied : Phrase → List Token → Prop
  | .expr _ tree, ts => ∃ copy, tree.same copy = true ∧ Derives (.expr .suffix copy) ts
  | .items trees, ts => ∃ copy, Node.sameAll trees copy = true ∧ Derives (.items copy) ts
  | .itemsTail trees, ts =>
    ∃ copy, Node.sameAll trees copy = true ∧ Derives (.itemsTail copy) ts
  | .pairs entries, ts =>
    ∃ copy, Node.samePairs entries copy = true ∧ Derives (.pairs copy) ts
  | .pairsTail entries, ts =>
    ∃ copy, Node.samePairs entries copy = true ∧ Derives (.pairsTail copy) ts
  | .names ids, ts =>
    ∃ copy : List Ident, ids.map Ident.name = copy.map Ident.name ∧ Derives (.names copy) ts
  | .namesTail ids, ts =>
    ∃ copy : List Ident, ids.map Ident.name = copy.map Ident.name ∧
      Derives (.namesTail copy) ts
  | .block tree, ts => ∃ copy, tree.same copy = true ∧ Derives (.block copy) ts
  | .statement tree, ts => ∃ copy, tree.same copy = true ∧ Derives (.statement copy) ts
  | .statements trees, ts =>
    ∃ copy, Node.sameAll trees copy = true ∧ Derives (.statements copy) ts

/-- The canonical text of the phrase is read as tokens that derive it again. -/
def Prints (table : AliasTable) (phrase : Phrase) : Prop :=
  Spelling table phrase.text phrase.Copied

end Phrase

variable {table : AliasTable}

namespace Derives

/-- What derives at the tightest level derives at every level. -/
theorem of_suffix {level : Level} {tree : Node} {ts : List Token}
    (h : Derives (.expr .suffix tree) ts) : Derives (.expr level tree) ts :=
  h.looser level.strength_bounds.2

/-- What derives at some level derives wherever any expression may stand. -/
theorem loosest {level : Level} {tree : Node} {ts : List Token}
    (h : Derives (.expr level tree) ts) : Derives (.expr .or tree) ts :=
  h.looser level.strength_bounds.1

end Derives

theorem mark_of_joins {level : Level} {kind : Kind} (h : level.joins kind = true) :
    ∃ mark, kind = .symbol mark := by
  unfold Level.joins at h
  split at h <;> first | exact ⟨_, rfl⟩ | cases h

theorem mark_of_isSign {kind : Kind} (h : kind.isSign = true) :
    ∃ mark, kind = .symbol mark := by
  unfold Kind.isSign at h
  split at h <;> first | exact ⟨_, rfl⟩ | cases h

namespace Phrase.Prints

variable {level : Level}

/-- A name is written as its token's value, which is read as a name again. -/
theorem ident {t : Token} (hlegible : t.Legible table) (hkind : t.kind = .ident) :
    Prints table (.expr level (.ident ⟨t, t.value⟩)) := by
  apply (Spelling.name hlegible hkind).of_text
  · simp [Phrase.text]
  · rintro _ ⟨u, rfl, hu, hvalue⟩
    exact ⟨.ident ⟨u, u.value⟩, by simp [hvalue], .ident hu⟩

/-- The digits of a number are read as the number. -/
theorem integer {t : Token} {n : Int} (hnat : 0 ≤ n) (hmaximum : n ≤ Int64.maximum) :
    Prints table (.expr level (.integer t n)) := by
  apply (Spelling.integer hnat hmaximum).of_text
  · simp [Phrase.text]
  · rintro _ ⟨u, rfl, hu, hvalue⟩
    exact ⟨.integer u n, by simp, .integer hu hvalue hmaximum⟩

theorem string {t : Token} {value : String} :
    Prints table (.expr level (.text t value)) := by
  apply (Spelling.quoted value).of_text
  · simp [Phrase.text]
  · rintro _ ⟨u, rfl, hu, rfl⟩
    exact ⟨.text u u.value, by simp, .text hu⟩

theorem boolean {t : Token} {b : Bool} : Prints table (.expr level (.boolean t b)) := by
  apply (Spelling.word (if b then .trueWord else .falseWord)).of_text
  · cases b <;> simp [Phrase.text, Keyword.lexeme]
  · rintro _ ⟨u, rfl, hu⟩
    exact ⟨.boolean u b, by simp, .boolean hu⟩

/-- A list without members has no text. -/
theorem empty {phrase : Phrase} (htext : phrase.text = []) (h : phrase.Copied []) :
    Prints table phrase := by
  apply Spelling.nil.of_text htext
  rintro _ rfl
  exact h

/-- Parentheses make an expression of the tightest level out of every operator with its operands. -/
theorem binary {t : Token} {left right : Node} {level' : Level} (hlegible : t.Legible table)
    (hop : level.joins t.kind = true) (hleft : Prints table (.expr level left))
    (hright : Prints table (.expr level' right)) :
    Prints table (.expr level (.binary t left t.value right)) := by
  obtain ⟨mark, hmark⟩ := mark_of_joins hop
  have hvalue := hlegible.symbol hmark
  have hoperator := Spelling.symbol mark (.blank hright) fun _ => (apart_blank _).opens
  have hspelling := Spelling.enclosed .paren (hleft.append (.blank hoperator) (apart_blank _))
  apply hspelling.of_text
  · simp [Phrase.text, Bracket.opening, Bracket.closing, Symbol.lexeme, hvalue]
  · rintro _ ⟨opening, _, closing, rfl, hopening, hclosing, ls, _, rfl, ⟨left', hsame, hls⟩,
      op, rs, rfl, ⟨hkind, hlexeme⟩, right', hsame', hrs⟩
    refine ⟨.binary op left' op.value right', ?_, .grouped hopening hclosing ?_⟩
    · simp [hsame, hsame', hvalue, hlexeme]
    · have hbinary : Derives (.expr level (.binary op left' op.value right'))
          (ls ++ op :: rs) :=
        .binary (by rwa [hkind, ← hmark]) hls.of_suffix hrs.of_suffix
      exact hbinary.loosest

/-- No parenthesis stands between a sign and its operand, so the operand must not begin with an
equals sign. -/
theorem unary {t : Token} {operand : Node} (hlegible : t.Legible table)
    (hsign : t.kind.isSign = true) (hopens : Opens operand.render.toList)
    (hoperand : Prints table (.expr level operand)) :
    Prints table (.expr level (.unary t t.value operand)) := by
  obtain ⟨mark, hmark⟩ := mark_of_isSign hsign
  have hvalue := hlegible.symbol hmark
  have hspelling := Spelling.enclosed .paren (.symbol mark hoperand fun _ => hopens)
  apply hspelling.of_text
  · simp [Phrase.text, Bracket.opening, Bracket.closing, Symbol.lexeme, hvalue]
  · rintro _ ⟨opening, _, closing, rfl, hopening, hclosing, op, us, rfl, ⟨hkind, hlexeme⟩,
      operand', hsame, hus⟩
    refine ⟨.unary op op.value operand', ?_, .grouped hopening hclosing ?_⟩
    · simp [hsame, hvalue, hlexeme]
    · have hunary : Derives (.expr .unary (.unary op op.value operand')) (op :: us) :=
        .unary (by rwa [hkind, ← hmark]) hus.of_suffix
      exact hunary.loosest

theorem call {t : Token} {callee : Node} {arguments : List Node}
    (hcallee : Prints table (.expr level callee))
    (harguments : Prints table (.items arguments)) :
    Prints table (.expr level (.call t callee arguments)) := by
  have hspelling := hcallee.append (.enclosed .paren harguments) (apart_opening _ _)
  apply hspelling.of_text
  · simp [Phrase.text, Bracket.opening, Bracket.closing, Symbol.lexeme]
  · rintro _ ⟨cs, _, rfl, ⟨callee', hsame, hcs⟩, opening, us, closing, rfl, hopening, hclosing,
      arguments', hsame', hus⟩
    refine ⟨.call opening callee' arguments', ?_, .call hopening hclosing hcs hus⟩
    simp [hsame, hsame']

/-- The parentheses around an index derive nothing of their own. -/
theorem index {t : Token} {collection place : Node} {level' : Level}
    (hcollection : Prints table (.expr level collection))
    (hplace : Prints table (.expr level' place)) :
    Prints table (.expr level (.index t collection place)) := by
  have hspelling := Spelling.enclosed .paren
    (hcollection.append (.enclosed .square hplace) (apart_opening _ _))
  apply hspelling.of_text
  · simp [Phrase.text, Bracket.opening, Bracket.closing, Symbol.lexeme]
  · rintro _ ⟨outer, _, outer', rfl, houter, houter', cs, _, rfl, ⟨collection', hsame, hcs⟩,
      opening, us, closing, rfl, hopening, hclosing, place', hsame', hus⟩
    refine ⟨.index opening collection' place', ?_, .grouped houter houter' ?_⟩
    · simp [hsame, hsame']
    · have hindex : Derives (.expr .suffix (.index opening collection' place'))
          (cs ++ opening :: (us ++ [closing])) := .index hopening hclosing hcs hus.of_suffix
      exact hindex.loosest

/-- The parentheses around a condition are part of the rule, not of the condition. -/
theorem conditional {t : Token} {condition consequence : Node} {level' : Level}
    (hcondition : Prints table (.expr level' condition))
    (hconsequence : Prints table (.block consequence)) :
    Prints table (.expr level (.conditional t condition consequence none)) := by
  have hhead := (Spelling.enclosed .paren hcondition).append (.blank hconsequence)
    (apart_blank _)
  have hspelling := Spelling.keyword .ifWord (.blank hhead) (apart_blank _)
  apply hspelling.of_text
  · simp [Phrase.text, Bracket.opening, Bracket.closing, Symbol.lexeme,
      Keyword.lexeme]
  · rintro _ ⟨word, _, rfl, hword, _, bs, rfl, ⟨opening, cs, closing, rfl, hopening, hclosing,
      condition', hsame, hcs⟩, consequence', hsame', hbs⟩
    refine ⟨.conditional word condition' consequence' none, ?_, ?_⟩
    · simp [hsame, hsame']
    · rw [List.cons_append, List.append_assoc]
      exact .conditional hword hopening hclosing hcs.of_suffix hbs

theorem alternative {t : Token} {condition consequence alternative : Node} {level' : Level}
    (hcondition : Prints table (.expr level' condition))
    (hconsequence : Prints table (.block consequence))
    (halternative : Prints table (.block alternative)) :
    Prints table (.expr level (.conditional t condition consequence (some alternative))) := by
  have helse := Spelling.keyword .elseWord (.blank halternative) (apart_blank _)
  have hblocks := hconsequence.append (.blank helse) (apart_blank _)
  have hhead := (Spelling.enclosed .paren hcondition).append (.blank hblocks) (apart_blank _)
  have hspelling := Spelling.keyword .ifWord (.blank hhead) (apart_blank _)
  apply hspelling.of_text
  · simp [Phrase.text, Bracket.opening, Bracket.closing, Symbol.lexeme,
      Keyword.lexeme]
  · rintro _ ⟨word, _, rfl, hword, _, _, rfl, ⟨opening, cs, closing, rfl, hopening, hclosing,
      condition', hsame, hcs⟩, bs, _, rfl, ⟨consequence', hsame', hbs⟩, other, as, rfl, hother,
      alternative', hsame'', has⟩
    refine ⟨.conditional word condition' consequence' (some alternative'), ?_, ?_⟩
    · simp [hsame, hsame', hsame'']
    · rw [List.cons_append, List.append_assoc]
      exact .alternative hword hopening hclosing hother hcs.of_suffix hbs has

theorem function {t : Token} {parameters : List Ident} {body : Node}
    (hparameters : Prints table (.names parameters)) (hbody : Prints table (.block body)) :
    Prints table (.expr level (.function t parameters body)) := by
  have hhead := (Spelling.enclosed .paren hparameters).append (.blank hbody) (apart_blank _)
  have hspelling := Spelling.keyword .fnWord hhead (by
    rw [List.append_assoc]
    exact apart_opening _ _)
  apply hspelling.of_text
  · simp [Phrase.text, Bracket.opening, Bracket.closing, Symbol.lexeme,
      Keyword.lexeme]
  · rintro _ ⟨word, _, rfl, hword, _, bs, rfl, ⟨opening, ps, closing, rfl, hopening, hclosing,
      parameters', hsame, hps⟩, body', hsame', hbs⟩
    refine ⟨.function word parameters' body', ?_, ?_⟩
    · simp [hsame, hsame']
    · rw [List.cons_append, List.append_assoc]
      exact .function hword hopening hclosing hps hbs

theorem array {t : Token} {elements : List Node} (h : Prints table (.items elements)) :
    Prints table (.expr level (.array t elements)) := by
  apply (Spelling.enclosed .square h).of_text
  · simp [Phrase.text, Bracket.opening, Bracket.closing, Symbol.lexeme]
  · rintro _ ⟨opening, us, closing, rfl, hopening, hclosing, elements', hsame, hus⟩
    exact ⟨.array opening elements', by simp [hsame], .array hopening hclosing hus⟩

theorem hash {t : Token} {entries : List (Node × Node)} (h : Prints table (.pairs entries)) :
    Prints table (.expr level (.hash t entries)) := by
  apply (Spelling.enclosed .curly h).of_text
  · simp [Phrase.text, Bracket.opening, Bracket.closing, Symbol.lexeme]
  · rintro _ ⟨opening, us, closing, rfl, hopening, hclosing, entries', hsame, hus⟩
    exact ⟨.hash opening entries', by simp [hsame], .hash hopening hclosing hus⟩

/-- The first item is an expression at any level, for its text is one at the tightest. -/
theorem items {tree : Node} {trees : List Node} (hfirst : Prints table (.expr level tree))
    (htail : Prints table (.itemsTail trees)) : Prints table (.items (tree :: trees)) := by
  apply (hfirst.append htail (apart_tailText _)).of_text
  · simp [Phrase.text, joinItems_cons]
  · rintro _ ⟨ts, us, rfl, ⟨tree', hsame, hts⟩, trees', hsame', hus⟩
    exact ⟨tree' :: trees', by simp [hsame, hsame'], .items hts.of_suffix hus⟩

theorem itemsNext {tree : Node} {trees : List Node} (hfirst : Prints table (.expr level tree))
    (htail : Prints table (.itemsTail trees)) : Prints table (.itemsTail (tree :: trees)) := by
  have hitems := hfirst.append htail (apart_tailText _)
  apply (Spelling.symbol .comma (.blank hitems) (by simp)).of_text
  · simp [Phrase.text, tailText_cons, joinItems_cons]
  · rintro _ ⟨comma, _, rfl, hcomma, ts, us, rfl, ⟨tree', hsame, hts⟩, trees', hsame', hus⟩
    exact ⟨tree' :: trees', by simp [hsame, hsame'],
      .itemsNext hcomma.1 hts.of_suffix hus⟩

/-- Keys and values are expressions as well, with a colon between them. -/
theorem pairs {key value : Node} {entries : List (Node × Node)} {level' : Level}
    (hkey : Prints table (.expr level key)) (hvalue : Prints table (.expr level' value))
    (htail : Prints table (.pairsTail entries)) :
    Prints table (.pairs ((key, value) :: entries)) := by
  have hrest := hvalue.append htail (apart_tailText _)
  have hcolon := Spelling.symbol .colon (.blank hrest) (by simp)
  have hspelling := hkey.append hcolon (apart_lexeme (by decide) _)
  apply hspelling.of_text
  · simp [Phrase.text, joinItems_cons, Symbol.lexeme]
  · rintro _ ⟨ks, _, rfl, ⟨key', hsame, hks⟩, colon, _, rfl, hcolon, vs, us, rfl,
      ⟨value', hsame', hvs⟩, entries', hsame'', hus⟩
    exact ⟨(key', value') :: entries', by simp [hsame, hsame', hsame''],
      .pairs hcolon.1 hks.of_suffix hvs.of_suffix hus⟩

theorem pairsNext {entries : List (Node × Node)} (hentries : entries ≠ [])
    (h : Prints table (.pairs entries)) : Prints table (.pairsTail entries) := by
  apply (Spelling.symbol .comma (.blank h) (by simp)).of_text
  · obtain ⟨⟨key, value⟩, rest, rfl⟩ := List.exists_cons_of_ne_nil hentries
    simp [Phrase.text, tailText_cons]
  · rintro _ ⟨comma, us, rfl, hcomma, entries', hsame, hus⟩
    have hentries' : entries' ≠ [] := by
      rintro rfl
      obtain ⟨entry, rest, rfl⟩ := List.exists_cons_of_ne_nil hentries
      simp [Node.samePairs_cons_nil] at hsame
    exact ⟨entries', hsame, .pairsNext hcomma.1 hentries' hus⟩

/-- A name is the first of a list of names, or stands behind a comma. -/
theorem names {t : Token} {trees : List Ident} (hlegible : t.Legible table)
    (hkind : t.kind = .ident) (htail : Prints table (.namesTail trees)) :
    Prints table (.names (⟨t, t.value⟩ :: trees)) := by
  apply ((Spelling.name hlegible hkind).append htail (apart_tailText _)).of_text
  · simp [Phrase.text, joinItems_cons]
  · rintro _ ⟨_, us, rfl, ⟨u, rfl, hu, hvalue⟩, trees', hsame, hus⟩
    exact ⟨⟨u, u.value⟩ :: trees', by simp [hsame, hvalue], .names hu hus⟩

theorem namesNext {t : Token} {trees : List Ident} (hlegible : t.Legible table)
    (hkind : t.kind = .ident) (htail : Prints table (.namesTail trees)) :
    Prints table (.namesTail (⟨t, t.value⟩ :: trees)) := by
  have hnames := (Spelling.name hlegible hkind).append htail (apart_tailText _)
  apply (Spelling.symbol .comma (.blank hnames) (by simp)).of_text
  · simp [Phrase.text, tailText_cons, joinItems_cons]
  · rintro _ ⟨comma, _, rfl, hcomma, _, us, rfl, ⟨u, rfl, hu, hvalue⟩, trees', hsame, hus⟩
    exact ⟨⟨u, u.value⟩ :: trees', by simp [hsame, hvalue], .namesNext hcomma.1 hu hus⟩

/-- A semicolon stands behind every statement but the last, which needs none. -/
theorem statements {tree : Node} {trees : List Node} (hfirst : Prints table (.statement tree))
    (hrest : Prints table (.statements trees)) : Prints table (.statements (tree :: trees)) := by
  cases trees with
  | nil =>
      apply hfirst.of_text
      · simp [Phrase.text, Node.joinStatements]
      · rintro ts ⟨tree', hsame, hts⟩
        have hlast : Derives (.statements [tree']) (ts ++ []) :=
          .unterminated hts (by unfold Node.MayPrecede; split <;> simp) .noStatements
        rw [List.append_nil] at hlast
        exact ⟨[tree'], by simp [hsame], hlast⟩
  | cons next trees =>
      have hsemicolon := Spelling.symbol .semicolon (.blank hrest) (by simp)
      apply (hfirst.append hsemicolon (apart_lexeme (by decide) _)).of_text
      · simp [Phrase.text, Node.joinStatements, Symbol.lexeme]
      · rintro _ ⟨ts, _, rfl, ⟨tree', hsame, hts⟩, semicolon, us, rfl, hsemicolon, trees',
          hsame', hus⟩
        exact ⟨tree' :: trees', by rw [Node.sameAll_cons, hsame, hsame']; rfl,
          .terminated hsemicolon.1 hts hus⟩

/-- Blanks inside the braces are layout. -/
theorem block {t : Token} {trees : List Node} (h : Prints table (.statements trees)) :
    Prints table (.block (.block t trees)) := by
  cases trees with
  | nil =>
      apply (Spelling.enclosed .curly (.blank .nil)).of_text
      · simp [Phrase.text, Node.braceStatements, Symbol.lexeme,
          Bracket.opening, Bracket.closing]
      · rintro _ ⟨opening, _, closing, rfl, hopening, hclosing, rfl⟩
        exact ⟨.block opening [], by simp,
          .block hopening hclosing .noStatements⟩
  | cons tree trees =>
      apply (Spelling.enclosed .curly (.blank h.before_blank)).of_text
      · simp [Phrase.text, Node.braceStatements, Symbol.lexeme,
          Bracket.opening, Bracket.closing]
      · rintro _ ⟨opening, us, closing, rfl, hopening, hclosing, trees', hsame, hus⟩
        exact ⟨.block opening trees', by rw [Node.same_block, hsame], .block hopening hclosing hus⟩

theorem binding {t name : Token} {value : Node} (hlegible : name.Legible table)
    (hname : name.kind = .ident) (hvalue : Prints table (.expr level value)) :
    Prints table (.statement (.binding t ⟨name, name.value⟩ value)) := by
  have hassign := Spelling.symbol .assign (.blank hvalue) fun _ => (apart_blank _).opens
  have hbound := (Spelling.name hlegible hname).append (.blank hassign) (apart_blank _)
  apply (Spelling.keyword .letWord (.blank hbound) (apart_blank _)).of_text
  · simp [Phrase.text, Symbol.lexeme, Keyword.lexeme]
  · rintro _ ⟨word, _, rfl, hword, _, _, rfl, ⟨u, rfl, hu, hcopy⟩, assign, us, rfl, hassign,
      value', hsame, hus⟩
    exact ⟨.binding word ⟨u, u.value⟩ value', by simp [hsame, hcopy],
      .binding hword hu hassign.1 hus.of_suffix⟩

theorem ret {t : Token} {value : Node} (hvalue : Prints table (.expr level value)) :
    Prints table (.statement (.ret t (some value))) := by
  apply (Spelling.keyword .returnWord (.blank hvalue) (apart_blank _)).of_text
  · simp [Phrase.text, Keyword.lexeme]
  · rintro _ ⟨word, us, rfl, hword, value', hsame, hus⟩
    exact ⟨.ret word (some value'), by simp [hsame], .ret hword hus.of_suffix⟩

/-- A return without a value is the word alone, which derives it where a statement ends. -/
theorem bareReturn {t : Token} : Prints table (.statement (.ret t none)) := by
  apply (Spelling.word .returnWord).of_text
  · simp [Phrase.text, Keyword.lexeme]
  · rintro _ ⟨word, rfl, hword⟩
    exact ⟨.ret word none, by simp, .bareReturn hword⟩

/-- An expression statement is written as its expression, and its first token is not compared. -/
theorem expression {first : Token} {value : Node} (h : Prints table (.expr level value)) :
    Prints table (.statement (.expression first value)) := by
  apply h.of_text
  · simp [Phrase.text]
  · rintro ts ⟨value', hsame, hts⟩
    cases ts with
    | nil => exact absurd hts.starts (by simp [Derives.Starts, Cursor.nextKind, Kind.begins])
    | cons t ts =>
        exact ⟨.expression t value', by simp [hsame], .expression hts.of_suffix⟩

end Phrase.Prints

namespace Derives

/-- The canonical text of an expression does not start with an equals sign. -/
theorem opens {phrase : Phrase} {ts : List Token} (h : Derives phrase ts)
    (hlegible : ∀ t ∈ ts, t.Legible table) {level : Level} {tree : Node}
    (hphrase : phrase = .expr level tree) : Opens tree.render.toList := by
  induction h generalizing level tree with
  | tighter _ _ ih =>
      cases hphrase
      exact ih hlegible rfl
  | grouped _ _ _ ih =>
      cases hphrase
      simp only [List.forall_mem_append, List.forall_mem_cons] at hlegible
      exact ih hlegible.2.1 rfl
  | call _ _ _ _ ih _ =>
      cases hphrase
      simp only [List.forall_mem_append] at hlegible
      rw [Node.render_call, String.toList_append, String.toList_append, String.toList_append,
        List.append_assoc, List.append_assoc]
      exact (ih hlegible.1 rfl).append (by simp [Opens])
  | @ident t hkind =>
      cases hphrase
      have hword := (Token.Legible.ident (hlegible t (by simp)) hkind).1
      rintro c hc rfl
      unfold Text.isWord at hword
      split at hword
      next => cases hword
      next htext =>
        rw [Node.render_ident, htext] at hc
        obtain rfl := Option.some.inj hc
        exact absurd hword (by simp [show Text.isWordStart '=' = false from by decide])
  | @integer t n hkind hvalue _ =>
      cases hphrase
      have hnat := Numeral.integer?_nonneg hvalue
        (Token.Legible.number (hlegible t (by simp)) hkind)
      rintro c hc rfl
      have hdigit := Numeral.isDigit_of_mem_toString hnat (List.mem_of_head? hc)
      exact absurd hdigit (by decide)
  | @boolean t b _ =>
      cases hphrase
      cases b <;> simp [Opens]
  | text _ =>
      cases hphrase
      simp [Opens, Quoting.quote, Quoting.quoteChars]
  | binary | unary | index | conditional | alternative | function | array | hash =>
      cases hphrase
      simp [Opens]
  | _ => cases hphrase

/-- Whatever tokens a phrase was derived from, its canonical text derives it again. -/
theorem prints {phrase : Phrase} {ts : List Token} (h : Derives phrase ts)
    (hlegible : ∀ t ∈ ts, t.Legible table) : phrase.Prints table := by
  induction h with
  | tighter _ _ ih => exact ih hlegible
  | binary hop _ _ ihleft ihright =>
      simp only [List.forall_mem_append, List.forall_mem_cons] at hlegible
      exact .binary hlegible.2.1 hop (ihleft hlegible.1) (ihright hlegible.2.2)
  | unary hsign h ih =>
      simp only [List.forall_mem_cons] at hlegible
      exact .unary hlegible.1 hsign (h.opens hlegible.2 rfl) (ih hlegible.2)
  | call _ _ _ _ ihcallee ih =>
      simp only [List.forall_mem_append, List.forall_mem_cons] at hlegible
      exact .call (ihcallee hlegible.1) (ih hlegible.2.2.1)
  | index _ _ _ _ ihcollection ih =>
      simp only [List.forall_mem_append, List.forall_mem_cons] at hlegible
      exact .index (ihcollection hlegible.1) (ih hlegible.2.2.1)
  | @ident t hkind => exact .ident (hlegible t (by simp)) hkind
  | @integer t n hkind hvalue hmaximum =>
      have hnat := Numeral.integer?_nonneg hvalue
        (Token.Legible.number (hlegible t (by simp)) hkind)
      exact .integer hnat hmaximum
  | text _ => exact .string
  | boolean _ => exact .boolean
  | grouped _ _ _ ih =>
      simp only [List.forall_mem_append, List.forall_mem_cons] at hlegible
      exact ih hlegible.2.1
  | conditional _ _ _ _ _ ihcondition ihconsequence =>
      simp only [List.forall_mem_append, List.forall_mem_cons] at hlegible
      exact .conditional (ihcondition hlegible.2.2.1) (ihconsequence hlegible.2.2.2.2)
  | alternative _ _ _ _ _ _ _ ihcondition ihconsequence ihalternative =>
      simp only [List.forall_mem_append, List.forall_mem_cons] at hlegible
      exact .alternative (ihcondition hlegible.2.2.1) (ihconsequence hlegible.2.2.2.2.1)
        (ihalternative hlegible.2.2.2.2.2.2)
  | function _ _ _ _ _ ihparameters ihbody =>
      simp only [List.forall_mem_append, List.forall_mem_cons] at hlegible
      exact .function (ihparameters hlegible.2.2.1) (ihbody hlegible.2.2.2.2)
  | array _ _ _ ih =>
      simp only [List.forall_mem_append, List.forall_mem_cons] at hlegible
      exact .array (ih hlegible.2.1)
  | hash _ _ _ ih =>
      simp only [List.forall_mem_append, List.forall_mem_cons] at hlegible
      exact .hash (ih hlegible.2.1)
  | noItems => exact .empty rfl ⟨[], rfl, .noItems⟩
  | items _ _ ihfirst ihtail =>
      simp only [List.forall_mem_append] at hlegible
      exact .items (ihfirst hlegible.1) (ihtail hlegible.2)
  | itemsEnd => exact .empty rfl ⟨[], rfl, .itemsEnd⟩
  | itemsNext _ _ _ ihfirst ihtail =>
      simp only [List.forall_mem_append, List.forall_mem_cons] at hlegible
      exact .itemsNext (ihfirst hlegible.2.1) (ihtail hlegible.2.2)
  | noPairs => exact .empty rfl ⟨[], rfl, .noPairs⟩
  | pairs _ _ _ _ ihkey ihvalue ihtail =>
      simp only [List.forall_mem_append, List.forall_mem_cons] at hlegible
      exact .pairs (ihkey hlegible.1) (ihvalue hlegible.2.2.1) (ihtail hlegible.2.2.2)
  | pairsEnd => exact .empty rfl ⟨[], rfl, .pairsEnd⟩
  | pairsNext _ hentries _ ih =>
      simp only [List.forall_mem_cons] at hlegible
      exact .pairsNext hentries (ih hlegible.2)
  | noNames => exact .empty rfl ⟨[], rfl, .noNames⟩
  | names hkind _ ih =>
      simp only [List.forall_mem_cons] at hlegible
      exact .names hlegible.1 hkind (ih hlegible.2)
  | namesEnd => exact .empty rfl ⟨[], rfl, .namesEnd⟩
  | namesNext _ hkind _ ih =>
      simp only [List.forall_mem_cons] at hlegible
      exact .namesNext hlegible.2.1 hkind (ih hlegible.2.2)
  | block _ _ _ ih =>
      simp only [List.forall_mem_append, List.forall_mem_cons] at hlegible
      exact .block (ih hlegible.2.1)
  | binding _ hname _ _ ih =>
      simp only [List.forall_mem_cons] at hlegible
      exact .binding hlegible.2.1 hname (ih hlegible.2.2.2)
  | ret _ _ ih =>
      simp only [List.forall_mem_cons] at hlegible
      exact .ret (ih hlegible.2)
  | bareReturn _ => exact .bareReturn
  | expression _ ih => exact .expression (ih hlegible)
  | noStatements => exact .empty rfl ⟨[], rfl, .noStatements⟩
  | terminated _ _ _ ihfirst ihrest =>
      simp only [List.forall_mem_append, List.forall_mem_cons] at hlegible
      exact .statements (ihfirst hlegible.1) (ihrest hlegible.2.2)
  | unterminated _ _ _ ihfirst ihrest =>
      simp only [List.forall_mem_append] at hlegible
      exact .statements (ihfirst hlegible.1) (ihrest hlegible.2)

end Derives

end Scriptlet
