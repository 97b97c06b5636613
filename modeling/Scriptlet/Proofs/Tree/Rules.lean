import Scriptlet.Tree.Equality
import Scriptlet.Tree.Printer

/-!
Equality and the canonical text, rule by rule: what they say about a node in terms
of the nodes below it.
-/

namespace Scriptlet.Node

variable {t u : Token} {n m : Node}

section Same

@[simp] theorem same_block (xs ys : List Node) :
    (block t xs).same (block u ys) = sameAll xs ys := rfl

/-- The name counts, the token that wrote it does not. -/
@[simp] theorem same_binding (x y : Ident) :
    (binding t x n).same (binding u y m) = (x.name == y.name && n.same m) := rfl

@[simp] theorem same_bareReturn : (ret t none).same (ret u none) = true := rfl

@[simp] theorem same_ret : (ret t (some n)).same (ret u (some m)) = n.same m := rfl

@[simp] theorem same_expression : (expression t n).same (expression u m) = n.same m := rfl

@[simp] theorem same_ident (x y : Ident) : (ident x).same (ident y) = (x.name == y.name) := rfl

@[simp] theorem same_integer (a b : Int) : (integer t a).same (integer u b) = (a == b) := rfl

@[simp] theorem same_boolean (a b : Bool) : (boolean t a).same (boolean u b) = (a == b) := rfl

@[simp] theorem same_text (a b : String) : (text t a).same (text u b) = (a == b) := rfl

@[simp] theorem same_array (xs ys : List Node) :
    (array t xs).same (array u ys) = sameAll xs ys := rfl

@[simp] theorem same_hash (ps qs : List (Node × Node)) :
    (hash t ps).same (hash u qs) = samePairs ps qs := rfl

@[simp] theorem same_unary (f g : String) :
    (unary t f n).same (unary u g m) = (f == g && n.same m) := rfl

@[simp] theorem same_binary (a b : Node) (f g : String) :
    (binary t a f n).same (binary u b g m) = (a.same b && f == g && n.same m) := rfl

@[simp] theorem same_conditional (a b : Node) :
    (conditional t a n none).same (conditional u b m none) = (a.same b && n.same m) := rfl

/-- Conditionals are compared branch by branch; with and without an alternative they differ. -/
@[simp] theorem same_alternative (a b e f : Node) :
    (conditional t a n (some e)).same (conditional u b m (some f)) =
      (a.same b && n.same m && e.same f) := rfl

/-- Parameters are compared as a list of names, so their number counts as well. -/
@[simp] theorem same_function (xs ys : List Ident) :
    (function t xs n).same (function u ys m) =
      (xs.map Ident.name == ys.map Ident.name && n.same m) := rfl

@[simp] theorem same_call (xs ys : List Node) :
    (call t n xs).same (call u m ys) = (n.same m && sameAll xs ys) := rfl

@[simp] theorem same_index (a b : Node) :
    (index t a n).same (index u b m) = (a.same b && n.same m) := rfl

@[simp] theorem sameAll_nil : sameAll [] [] = true := rfl

/-- Lists are compared from the left, one member with one. -/
@[simp] theorem sameAll_cons (xs ys : List Node) :
    sameAll (n :: xs) (m :: ys) = (n.same m && sameAll xs ys) := rfl

@[simp] theorem samePairs_nil : samePairs [] [] = true := rfl

/-- The pairs of hashes are compared in the order in which they are written. -/
@[simp] theorem samePairs_cons (k l : Node) (ps qs : List (Node × Node)) :
    samePairs ((k, n) :: ps) ((l, m) :: qs) =
      (k.same l && n.same m && samePairs ps qs) := rfl

/-- Lists of different lengths are told apart at the end of the shorter. -/
theorem samePairs_cons_nil (p : Node × Node) (ps : List (Node × Node)) :
    samePairs (p :: ps) [] = false := rfl

end Same

section Render

/-- Statements stand between braces, with a semicolon from each to the next. -/
@[simp] theorem render_block (ns : List Node) :
    (block t ns).render = braceStatements (renderAll ns) := rfl

@[simp] theorem render_binding (x : Ident) :
    (binding t x n).render = "let " ++ x.name ++ " = " ++ n.render := rfl

@[simp] theorem render_bareReturn : (ret t none).render = "return" := rfl

/-- One blank stands behind the word, as it does behind `let`. -/
@[simp] theorem render_ret : (ret t (some n)).render = "return " ++ n.render := rfl

/-- An expression that stands as a statement is written without an end of its own. -/
@[simp] theorem render_expression : (expression t n).render = n.render := rfl

@[simp] theorem render_ident (x : Ident) : (ident x).render = x.name := rfl

@[simp] theorem render_integer (a : Int) : (integer t a).render = toString a := rfl

@[simp] theorem render_boolean (a : Bool) :
    (boolean t a).render = if a then "true" else "false" := rfl

/-- A text is written as it is read, with its quotes and escapes. -/
@[simp] theorem render_text (a : String) : (text t a).render = Quoting.quote a := rfl

@[simp] theorem render_array (ns : List Node) :
    (array t ns).render = "[" ++ joinItems (renderAll ns) ++ "]" := rfl

@[simp] theorem render_hash (ps : List (Node × Node)) :
    (hash t ps).render = "\x7b" ++ joinItems (renderPairs ps) ++ "\x7d" := rfl

/-- Every operator is written with parentheses, so its strength need not be known to read
it back. -/
@[simp] theorem render_unary (f : String) :
    (unary t f n).render = "(" ++ f ++ n.render ++ ")" := rfl

@[simp] theorem render_binary (f : String) :
    (binary t n f m).render = "(" ++ n.render ++ " " ++ f ++ " " ++ m.render ++ ")" := rfl

@[simp] theorem render_conditional :
    (conditional t n m none).render = "if (" ++ n.render ++ ") " ++ m.render := rfl

/-- Conditions stand in parentheses of their own, besides those that an operator brings along. -/
@[simp] theorem render_alternative (e : Node) :
    (conditional t n m (some e)).render =
      "if (" ++ n.render ++ ") " ++ m.render ++ " else " ++ e.render := rfl

@[simp] theorem render_function (xs : List Ident) :
    (function t xs n).render =
      "fn(" ++ joinItems (xs.map Ident.name) ++ ") " ++ n.render := rfl

/-- A call takes no parentheses around it, for it binds more strongly than all operators. -/
@[simp] theorem render_call (ns : List Node) :
    (call t n ns).render = n.render ++ "(" ++ joinItems (renderAll ns) ++ ")" := rfl

/-- An index is written in parentheses although it binds like a call. -/
@[simp] theorem render_index :
    (index t n m).render = "(" ++ n.render ++ "[" ++ m.render ++ "])" := rfl

@[simp] theorem renderAll_nil : renderAll [] = [] := rfl

@[simp] theorem renderAll_cons (ns : List Node) :
    renderAll (n :: ns) = n.render :: renderAll ns := rfl

@[simp] theorem renderPairs_nil : renderPairs [] = [] := rfl

@[simp] theorem renderPairs_cons (ps : List (Node × Node)) :
    renderPairs ((n, m) :: ps) = (n.render ++ ": " ++ m.render) :: renderPairs ps := rfl

end Render

end Scriptlet.Node
