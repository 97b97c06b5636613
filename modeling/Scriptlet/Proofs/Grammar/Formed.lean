import Mathlib.Data.List.Basic
import Scriptlet.Proofs.Grammar.Phrase

/-!
The form of the trees that the grammar derives: expressions, statements and blocks stand
where they belong. A block is a branch of a conditional or the body of a function, a
statement stands in a block or in a program, and everything else is an expression.
-/

namespace Scriptlet

/-- What a node of a tree is there for. -/
inductive Role where
  | expression
  | statement
  | block
  | program

namespace Node

inductive Formed : Role → Node → Prop where
  | ident (id : Ident) : Formed .expression (.ident id)
  | integer (t : Token) (n : Int) : Formed .expression (.integer t n)
  | boolean (t : Token) (b : Bool) : Formed .expression (.boolean t b)
  | text (t : Token) (s : String) : Formed .expression (.text t s)
  | array (t : Token) {elements : List Node}
      (h : ∀ element ∈ elements, Formed .expression element) :
      Formed .expression (.array t elements)
  | hash (t : Token) {pairs : List (Node × Node)}
      (hkey : ∀ pair ∈ pairs, Formed .expression pair.1)
      (hvalue : ∀ pair ∈ pairs, Formed .expression pair.2) :
      Formed .expression (.hash t pairs)
  | unary (t : Token) (operator : String) {operand : Node}
      (h : Formed .expression operand) : Formed .expression (.unary t operator operand)
  | binary (t : Token) {left : Node} (operator : String) {right : Node}
      (hleft : Formed .expression left) (hright : Formed .expression right) :
      Formed .expression (.binary t left operator right)
  | conditional (t : Token) {condition consequence : Node} {alternative : Option Node}
      (hcondition : Formed .expression condition) (hconsequence : Formed .block consequence)
      (halternative : ∀ block ∈ alternative, Formed .block block) :
      Formed .expression (.conditional t condition consequence alternative)
  | function (t : Token) (parameters : List Ident) {body : Node}
      (hbody : Formed .block body) : Formed .expression (.function t parameters body)
  | call (t : Token) {callee : Node} {arguments : List Node}
      (hcallee : Formed .expression callee)
      (h : ∀ argument ∈ arguments, Formed .expression argument) :
      Formed .expression (.call t callee arguments)
  | index (t : Token) {collection place : Node} (hcollection : Formed .expression collection)
      (hplace : Formed .expression place) :
      Formed .expression (.index t collection place)
  | block (t : Token) {statements : List Node}
      (h : ∀ statement ∈ statements, Formed .statement statement) :
      Formed .block (.block t statements)
  | binding (t : Token) (name : Ident) {value : Node} (h : Formed .expression value) :
      Formed .statement (.binding t name value)
  | ret (t : Token) {value : Option Node} (h : ∀ node ∈ value, Formed .expression node) :
      Formed .statement (.ret t value)
  | expression (t : Token) {value : Node} (h : Formed .expression value) :
      Formed .statement (.expression t value)
  | program {statements : List Node}
      (h : ∀ statement ∈ statements, Formed .statement statement) :
      Formed .program (.program statements)

theorem Formed.child {role : Role} {node child : Node} (h : node.Formed role)
    (hchild : child ∈ node.children) : ∃ role, child.Formed role := by
  cases h with
  | ident | integer | boolean | text => cases hchild
  | array _ h => exact ⟨_, h child hchild⟩
  | hash _ hkey hvalue =>
      obtain ⟨pair, hpair, hmem⟩ := List.mem_flatMap.mp hchild
      rcases List.mem_pair.mp hmem with rfl | rfl
      · exact ⟨_, hkey pair hpair⟩
      · exact ⟨_, hvalue pair hpair⟩
  | unary _ _ h =>
      rw [List.mem_singleton.mp hchild]
      exact ⟨_, h⟩
  | binary _ _ hleft hright =>
      rcases List.mem_pair.mp hchild with rfl | rfl
      · exact ⟨_, hleft⟩
      · exact ⟨_, hright⟩
  | conditional _ hcondition hconsequence halternative =>
      rcases List.mem_cons.mp hchild with rfl | hblock
      · exact ⟨_, hcondition⟩
      rcases List.mem_cons.mp hblock with rfl | hblock
      · exact ⟨_, hconsequence⟩
      · exact ⟨_, halternative child (Option.mem_toList.mp hblock)⟩
  | function _ _ hbody =>
      rcases List.mem_append.mp hchild with hparameter | hblock
      · obtain ⟨id, _, rfl⟩ := List.mem_map.mp hparameter
        exact ⟨_, .ident id⟩
      · rw [List.mem_singleton.mp hblock]
        exact ⟨_, hbody⟩
  | call _ hcallee h =>
      rcases List.mem_cons.mp hchild with rfl | hargument
      · exact ⟨_, hcallee⟩
      · exact ⟨_, h child hargument⟩
  | index _ hcollection hplace =>
      rcases List.mem_pair.mp hchild with rfl | rfl
      · exact ⟨_, hcollection⟩
      · exact ⟨_, hplace⟩
  | block _ h | program h => exact ⟨_, h child hchild⟩
  | binding _ name h =>
      rcases List.mem_pair.mp hchild with rfl | rfl
      · exact ⟨_, .ident name⟩
      · exact ⟨_, h⟩
  | ret _ h => exact ⟨_, h child (Option.mem_toList.mp hchild)⟩
  | expression _ h =>
      rw [List.mem_singleton.mp hchild]
      exact ⟨_, h⟩

end Node

/-- The trees of a phrase are formed as the phrase says. -/
def Phrase.Formed : Phrase → Prop
  | .expr _ tree => tree.Formed .expression
  | .items trees | .itemsTail trees => ∀ tree ∈ trees, tree.Formed .expression
  | .pairs entries | .pairsTail entries =>
    ∀ entry ∈ entries, entry.1.Formed .expression ∧ entry.2.Formed .expression
  | .names _ | .namesTail _ => True
  | .block tree => tree.Formed .block
  | .statement tree => tree.Formed .statement
  | .statements trees => ∀ tree ∈ trees, tree.Formed .statement

/-- What the grammar derives is put together as the rules of evaluation expect it. -/
theorem Derives.formed {phrase : Phrase} {ts : List Token} (h : Derives phrase ts) :
    phrase.Formed := by
  induction h with
  | tighter _ _ ih => exact ih
  | binary _ _ _ ihl ihr => exact .binary _ _ ihl ihr
  | unary _ _ ih => exact .unary _ _ ih
  | call _ _ _ _ ihc ih => exact .call _ ihc ih
  | index _ _ _ _ ihc ih => exact .index _ ihc ih
  | ident _ => exact .ident _
  | integer _ _ _ => exact .integer _ _
  | text _ => exact .text _ _
  | boolean _ => exact .boolean _ _
  | grouped _ _ _ ih => exact ih
  | conditional _ _ _ _ _ ihc ihb => exact .conditional _ ihc ihb nofun
  | alternative _ _ _ _ _ _ _ ihc ihb iha =>
      apply Node.Formed.conditional _ ihc ihb
      rintro _ ⟨⟩
      exact iha
  | function _ _ _ _ _ _ ih => exact .function _ _ ih
  | array _ _ _ ih => exact .array _ ih
  | hash _ _ _ ih => exact .hash _ (fun pair h => (ih pair h).1) fun pair h => (ih pair h).2
  | noItems | itemsEnd | noPairs | pairsEnd | noStatements => exact nofun
  | items _ _ ih ihs => exact List.forall_mem_cons.mpr ⟨ih, ihs⟩
  | itemsNext _ _ _ ih ihs => exact List.forall_mem_cons.mpr ⟨ih, ihs⟩
  | pairs _ _ _ _ ihk ihv ihs => exact List.forall_mem_cons.mpr ⟨⟨ihk, ihv⟩, ihs⟩
  | pairsNext _ _ _ ih => exact ih
  | noNames | names | namesEnd | namesNext => trivial
  | block _ _ _ ih => exact .block _ ih
  | binding _ _ _ _ ih => exact .binding _ _ ih
  | ret _ _ ih =>
      apply Node.Formed.ret
      rintro _ ⟨⟩
      exact ih
  | bareReturn _ => exact .ret _ nofun
  | expression _ ih => exact .expression _ ih
  | terminated _ _ _ ih ihs => exact List.forall_mem_cons.mpr ⟨ih, ihs⟩
  | unterminated _ _ _ ih ihs => exact List.forall_mem_cons.mpr ⟨ih, ihs⟩

end Scriptlet
