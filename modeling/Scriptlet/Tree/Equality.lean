import Scriptlet.Tree.Node

/-!
Structural equality of trees: the same rules with the same names, operators and literals in the
same order. Tokens do not count, so trees of different sources can be equal.
-/

namespace Scriptlet.Node

mutual

def same : Node → Node → Bool
  | .bare _, .bare _ => true
  | .program xs, .program ys => sameAll xs ys
  | .block _ xs, .block _ ys => sameAll xs ys
  | .binding _ x v, .binding _ y w => x.name == y.name && v.same w
  | .ret _ none, .ret _ none => true
  | .ret _ (some v), .ret _ (some w) => v.same w
  | .expression _ v, .expression _ w => v.same w
  | .ident x, .ident y => x.name == y.name
  | .integer _ m, .integer _ n => m == n
  | .boolean _ a, .boolean _ b => a == b
  | .text _ s, .text _ t => s == t
  | .array _ xs, .array _ ys => sameAll xs ys
  | .hash _ ps, .hash _ qs => samePairs ps qs
  | .unary _ f v, .unary _ g w => f == g && v.same w
  | .binary _ a f b, .binary _ c g d => a.same c && f == g && b.same d
  | .conditional _ a b none, .conditional _ c d none => a.same c && b.same d
  | .conditional _ a b (some e), .conditional _ c d (some f) => a.same c && b.same d && e.same f
  | .function _ xs b, .function _ ys d => xs.map Ident.name == ys.map Ident.name && b.same d
  | .call _ f xs, .call _ g ys => f.same g && sameAll xs ys
  | .index _ a i, .index _ b j => a.same b && i.same j
  | _, _ => false

def sameAll : List Node → List Node → Bool
  | [], [] => true
  | x :: xs, y :: ys => x.same y && sameAll xs ys
  | _, _ => false

def samePairs : List (Node × Node) → List (Node × Node) → Bool
  | [], [] => true
  | (k, v) :: ps, (l, w) :: qs => k.same l && v.same w && samePairs ps qs
  | _, _ => false

end

end Scriptlet.Node
