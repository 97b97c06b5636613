import Scriptlet.Number.Integer
import Scriptlet.Tree.Node

/-!
The grammar of the language, stratified by precedence and without a parser.
Binary operators form six levels, each associating to the left and each built
from phrases of the next tighter one; signs and negations come next, and calls
and indexes behind a primary are tightest. A phrase names what is derived
together with its tree, and `Derives` relates it to the tokens that spell it.
-/

namespace Scriptlet

/-- The levels of expressions, the loosest first. -/
inductive Level where
  | or
  | and
  | equality
  | relational
  | sum
  | product
  | unary
  | suffix
  deriving DecidableEq

namespace Level

/-- The level from which the operands of a level are built. -/
def tighter : Level → Level
  | .or => .and
  | .and => .equality
  | .equality => .relational
  | .relational => .sum
  | .sum => .product
  | .product => .unary
  | .unary | .suffix => .suffix

/-- The kinds of operator that join two operands at a level. -/
def joins : Level → Kind → Bool
  | .or, .symbol .or => true
  | .and, .symbol .and => true
  | .equality, .symbol .equal | .equality, .symbol .notEqual => true
  | .relational, .symbol .less | .relational, .symbol .greater => true
  | .sum, .symbol .plus | .sum, .symbol .minus => true
  | .product, .symbol .times | .product, .symbol .divide => true
  | _, _ => false

end Level

namespace Kind

/-- A sign or negation before an operand. -/
def isSign : Kind → Bool
  | .symbol .bang | .symbol .minus | .symbol .plus => true
  | _ => false

/-- A token of this kind behind an expression would go on with it. -/
def Extends (kind : Kind) : Prop :=
  (∃ level : Level, level.joins kind = true) ∨ kind = .symbol .leftParen ∨
    kind = .symbol .leftBracket

end Kind

/-- What can be derived, with its tree. A tail is the rest of a list behind its
first member, each member behind a comma. -/
inductive Phrase where
  | expr (level : Level) (tree : Node)
  | items (trees : List Node)
  | itemsTail (trees : List Node)
  | pairs (trees : List (Node × Node))
  | pairsTail (trees : List (Node × Node))
  | names (trees : List Ident)
  | namesTail (trees : List Ident)
  | block (tree : Node)
  | statement (tree : Node)
  | statements (trees : List Node)

/-- What may follow a statement that no semicolon ends: nothing in its block
behind a return without a value, and else nothing that would go on with the
expression at its end. -/
def Node.MayPrecede (statement : Node) (rest : List Token) : Prop :=
  match statement with
  | .ret _ none => rest = []
  | _ => ∀ t ∈ rest.head?, ¬ t.kind.Extends

/-- The tokens spell the phrase. -/
inductive Derives : Phrase → List Token → Prop where
  | tighter {level : Level} {tree : Node} {ts : List Token} (hlevel : level ≠ .suffix)
      (h : Derives (.expr level.tighter tree) ts) : Derives (.expr level tree) ts
  | binary {level : Level} {t : Token} {left right : Node} {ls rs : List Token}
      (hop : level.joins t.kind = true) (hleft : Derives (.expr level left) ls)
      (hright : Derives (.expr level.tighter right) rs) :
      Derives (.expr level (.binary t left t.value right)) (ls ++ t :: rs)
  | unary {t : Token} {operand : Node} {ts : List Token} (hsign : t.kind.isSign = true)
      (h : Derives (.expr .unary operand) ts) :
      Derives (.expr .unary (.unary t t.value operand)) (t :: ts)
  | call {opening closing : Token} {callee : Node} {arguments : List Node}
      {cs ts : List Token} (hopening : opening.kind = .symbol .leftParen)
      (hclosing : closing.kind = .symbol .rightParen)
      (hcallee : Derives (.expr .suffix callee) cs) (h : Derives (.items arguments) ts) :
      Derives (.expr .suffix (.call opening callee arguments))
        (cs ++ opening :: (ts ++ [closing]))
  | index {opening closing : Token} {collection place : Node} {cs ts : List Token}
      (hopening : opening.kind = .symbol .leftBracket)
      (hclosing : closing.kind = .symbol .rightBracket)
      (hcollection : Derives (.expr .suffix collection) cs)
      (h : Derives (.expr .or place) ts) :
      Derives (.expr .suffix (.index opening collection place))
        (cs ++ opening :: (ts ++ [closing]))
  | ident {t : Token} (hkind : t.kind = .ident) :
      Derives (.expr .suffix (.ident ⟨t, t.value⟩)) [t]
  | integer {t : Token} {n : Int} (hkind : t.kind = .number)
      (hvalue : Numeral.integer? t.value = some n) (hmaximum : n ≤ Int64.maximum) :
      Derives (.expr .suffix (.integer t n)) [t]
  | text {t : Token} (hkind : t.kind = .text) :
      Derives (.expr .suffix (.text t t.value)) [t]
  | boolean {t : Token} {b : Bool}
      (hkind : t.kind = .keyword (if b then .trueWord else .falseWord)) :
      Derives (.expr .suffix (.boolean t b)) [t]
  | grouped {opening closing : Token} {tree : Node} {ts : List Token}
      (hopening : opening.kind = .symbol .leftParen)
      (hclosing : closing.kind = .symbol .rightParen) (h : Derives (.expr .or tree) ts) :
      Derives (.expr .suffix tree) (opening :: (ts ++ [closing]))
  | conditional {t opening closing : Token} {condition consequence : Node}
      {cs bs : List Token} (hkind : t.kind = .keyword .ifWord)
      (hopening : opening.kind = .symbol .leftParen)
      (hclosing : closing.kind = .symbol .rightParen)
      (hcondition : Derives (.expr .or condition) cs)
      (hconsequence : Derives (.block consequence) bs) :
      Derives (.expr .suffix (.conditional t condition consequence none))
        (t :: opening :: (cs ++ closing :: bs))
  | alternative {t opening closing other : Token} {condition consequence alternative : Node}
      {cs bs as : List Token} (hkind : t.kind = .keyword .ifWord)
      (hopening : opening.kind = .symbol .leftParen)
      (hclosing : closing.kind = .symbol .rightParen)
      (hother : other.kind = .keyword .elseWord)
      (hcondition : Derives (.expr .or condition) cs)
      (hconsequence : Derives (.block consequence) bs)
      (halternative : Derives (.block alternative) as) :
      Derives (.expr .suffix (.conditional t condition consequence (some alternative)))
        (t :: opening :: (cs ++ closing :: (bs ++ other :: as)))
  | function {t opening closing : Token} {parameters : List Ident} {body : Node}
      {ps bs : List Token} (hkind : t.kind = .keyword .fnWord)
      (hopening : opening.kind = .symbol .leftParen)
      (hclosing : closing.kind = .symbol .rightParen)
      (hparameters : Derives (.names parameters) ps) (hbody : Derives (.block body) bs) :
      Derives (.expr .suffix (.function t parameters body))
        (t :: opening :: (ps ++ closing :: bs))
  | array {t closing : Token} {elements : List Node} {ts : List Token}
      (hkind : t.kind = .symbol .leftBracket)
      (hclosing : closing.kind = .symbol .rightBracket) (h : Derives (.items elements) ts) :
      Derives (.expr .suffix (.array t elements)) (t :: (ts ++ [closing]))
  | hash {t closing : Token} {entries : List (Node × Node)} {ts : List Token}
      (hkind : t.kind = .symbol .leftBrace)
      (hclosing : closing.kind = .symbol .rightBrace) (h : Derives (.pairs entries) ts) :
      Derives (.expr .suffix (.hash t entries)) (t :: (ts ++ [closing]))
  | noItems : Derives (.items []) []
  | items {tree : Node} {trees : List Node} {ts us : List Token}
      (hfirst : Derives (.expr .or tree) ts) (htail : Derives (.itemsTail trees) us) :
      Derives (.items (tree :: trees)) (ts ++ us)
  | itemsEnd : Derives (.itemsTail []) []
  | itemsNext {comma : Token} {tree : Node} {trees : List Node} {ts us : List Token}
      (hcomma : comma.kind = .symbol .comma) (hfirst : Derives (.expr .or tree) ts)
      (htail : Derives (.itemsTail trees) us) :
      Derives (.itemsTail (tree :: trees)) (comma :: (ts ++ us))
  | noPairs : Derives (.pairs []) []
  | pairs {colon : Token} {key value : Node} {entries : List (Node × Node)}
      {ks vs us : List Token} (hcolon : colon.kind = .symbol .colon)
      (hkey : Derives (.expr .or key) ks) (hvalue : Derives (.expr .or value) vs)
      (htail : Derives (.pairsTail entries) us) :
      Derives (.pairs ((key, value) :: entries)) (ks ++ colon :: (vs ++ us))
  | pairsEnd : Derives (.pairsTail []) []
  | pairsNext {comma : Token} {entries : List (Node × Node)} {ts : List Token}
      (hcomma : comma.kind = .symbol .comma) (hentries : entries ≠ [])
      (h : Derives (.pairs entries) ts) : Derives (.pairsTail entries) (comma :: ts)
  | noNames : Derives (.names []) []
  | names {t : Token} {trees : List Ident} {us : List Token} (hkind : t.kind = .ident)
      (htail : Derives (.namesTail trees) us) :
      Derives (.names (⟨t, t.value⟩ :: trees)) (t :: us)
  | namesEnd : Derives (.namesTail []) []
  | namesNext {comma t : Token} {trees : List Ident} {us : List Token}
      (hcomma : comma.kind = .symbol .comma) (hkind : t.kind = .ident)
      (htail : Derives (.namesTail trees) us) :
      Derives (.namesTail (⟨t, t.value⟩ :: trees)) (comma :: t :: us)
  | block {opening closing : Token} {trees : List Node} {ts : List Token}
      (hopening : opening.kind = .symbol .leftBrace)
      (hclosing : closing.kind = .symbol .rightBrace) (h : Derives (.statements trees) ts) :
      Derives (.block (.block opening trees)) (opening :: (ts ++ [closing]))
  | binding {t name assign : Token} {value : Node} {ts : List Token}
      (hkind : t.kind = .keyword .letWord) (hname : name.kind = .ident)
      (hassign : assign.kind = .symbol .assign) (h : Derives (.expr .or value) ts) :
      Derives (.statement (.binding t ⟨name, name.value⟩ value)) (t :: name :: assign :: ts)
  | ret {t : Token} {value : Node} {ts : List Token}
      (hkind : t.kind = .keyword .returnWord) (h : Derives (.expr .or value) ts) :
      Derives (.statement (.ret t (some value))) (t :: ts)
  | bareReturn {t : Token} (hkind : t.kind = .keyword .returnWord) :
      Derives (.statement (.ret t none)) [t]
  | expression {first : Token} {value : Node} {ts : List Token}
      (h : Derives (.expr .or value) (first :: ts)) :
      Derives (.statement (.expression first value)) (first :: ts)
  | noStatements : Derives (.statements []) []
  | terminated {semicolon : Token} {tree : Node} {trees : List Node} {ts us : List Token}
      (hsemicolon : semicolon.kind = .symbol .semicolon)
      (hfirst : Derives (.statement tree) ts) (hrest : Derives (.statements trees) us) :
      Derives (.statements (tree :: trees)) (ts ++ semicolon :: us)
  | unterminated {tree : Node} {trees : List Node} {ts us : List Token}
      (hfirst : Derives (.statement tree) ts) (hfollow : tree.MayPrecede us)
      (hrest : Derives (.statements trees) us) :
      Derives (.statements (tree :: trees)) (ts ++ us)

end Scriptlet
