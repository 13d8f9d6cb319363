import WrapGen.Text.Stem
import WrapGen.Code.Literal
/-!
# Expressions

The expressions of generated code, independent of how they are written. `hole`
and `scratch` occur in recipes only: the value that is converted, and a
temporary of the recipe.

`replace` puts other expressions in place of nodes, from the root downwards;
`stem` gives the identifier stem that temporaries of an expression start with.
-/
namespace WrapGen.Code

/-- The binary operators of generated code. -/
inductive BinaryOp where
  | eq
  | notEq
  | lt
  | and
  | or
  | isIn
  | notIn
  | is
  | isNot
  deriving DecidableEq, Repr

/-- An expression. -/
inductive Expr where
  /-- The value being converted. -/
  | hole
  /-- A temporary of a recipe. -/
  | scratch (suffix : String)
  | name (n : String)
  | literal (l : Literal)
  | attr (receiver : Expr) (name : String)
  | call (callee : Expr) (args : List Expr)
  | index (receiver index : Expr)
  /-- A value taken as one of a storage type. -/
  | cast (type : String) (e : Expr)
  /-- What a pointer or a position refers to. -/
  | deref (e : Expr)
  /-- A position moved on by one. -/
  | inc (e : Expr)
  | binary (op : BinaryOp) (lhs rhs : Expr)
  | not (e : Expr)
  /-- A test for one of several host types. -/
  | isInstance (e : Expr) (types : List String)
  | hasAttr (e : Expr) (name : String)
  /-- A value of a storage type. -/
  | construct (type : String) (args : List Expr)
  /-- A fresh value of a storage type on the heap. -/
  | alloc (type : String)
  | list (items : List Expr)
  | dict (pairs : List (Expr × Expr))

namespace Expr

/-- The call of a method. -/
def method (receiver : Expr) (name : String) (args : List Expr) : Expr :=
  .call (.attr receiver name) args

/-- The call of a function that has a name. -/
def callName (function : String) (args : List Expr) : Expr :=
  .call (.name function) args

/-- An integer literal. -/
def int (n : Int) : Expr := .literal (.int n)

/-- A text literal. -/
def str (s : String) : Expr := .literal (.str s)

/-- A truth value. -/
def bool (b : Bool) : Expr := .literal (.bool b)

/-- The literal for no value. -/
def none : Expr := .literal .none

/-! ## Equality -/

mutual

/-- Whether two expressions are equal, floats compared as numbers. -/
def same : Expr → Expr → Bool
  | .hole, .hole => true
  | .scratch s, .scratch t => s == t
  | .name m, .name n => m == n
  | .literal l, .literal m => l.same m
  | .attr a m, .attr b n => same a b && m == n
  | .call a xs, .call b ys => same a b && sameAll xs ys
  | .index a i, .index b j => same a b && same i j
  | .cast s a, .cast t b => s == t && same a b
  | .deref a, .deref b => same a b
  | .inc a, .inc b => same a b
  | .binary o a b, .binary p c d => o == p && same a c && same b d
  | .not a, .not b => same a b
  | .isInstance a ss, .isInstance b ts => same a b && ss == ts
  | .hasAttr a m, .hasAttr b n => same a b && m == n
  | .construct s xs, .construct t ys => s == t && sameAll xs ys
  | .alloc s, .alloc t => s == t
  | .list xs, .list ys => sameAll xs ys
  | .dict ps, .dict qs => samePairs ps qs
  | _, _ => false
termination_by structural a => a

/-- Expressions compared one by one. -/
def sameAll : List Expr → List Expr → Bool
  | [], [] => true
  | x :: xs, y :: ys => same x y && sameAll xs ys
  | _, _ => false
termination_by structural xs => xs

/-- Pairs of expressions compared one by one. -/
def samePairs : List (Expr × Expr) → List (Expr × Expr) → Bool
  | [], [] => true
  | (k, v) :: ps, (l, w) :: qs => same k l && same v w && samePairs ps qs
  | _, _ => false
termination_by structural ps => ps

end

/-! ## Replacement -/

mutual

/-- Puts `f e` in place of every node `e` where it is given; the nodes of what
is put in are not visited. -/
def replace (f : Expr → Option Expr) : Expr → Expr
  | .hole => (f .hole).getD .hole
  | .scratch s => (f (.scratch s)).getD (.scratch s)
  | .name n => (f (.name n)).getD (.name n)
  | .literal l => (f (.literal l)).getD (.literal l)
  | .attr e n => (f (.attr e n)).getD (.attr (e.replace f) n)
  | .call e args => (f (.call e args)).getD (.call (e.replace f) (replaceAll f args))
  | .index e i => (f (.index e i)).getD (.index (e.replace f) (i.replace f))
  | .cast t e => (f (.cast t e)).getD (.cast t (e.replace f))
  | .deref e => (f (.deref e)).getD (.deref (e.replace f))
  | .inc e => (f (.inc e)).getD (.inc (e.replace f))
  | .binary o a b => (f (.binary o a b)).getD (.binary o (a.replace f) (b.replace f))
  | .not e => (f (.not e)).getD (.not (e.replace f))
  | .isInstance e ts => (f (.isInstance e ts)).getD (.isInstance (e.replace f) ts)
  | .hasAttr e n => (f (.hasAttr e n)).getD (.hasAttr (e.replace f) n)
  | .construct t args => (f (.construct t args)).getD (.construct t (replaceAll f args))
  | .alloc t => (f (.alloc t)).getD (.alloc t)
  | .list items => (f (.list items)).getD (.list (replaceAll f items))
  | .dict pairs => (f (.dict pairs)).getD (.dict (replacePairs f pairs))
termination_by structural e => e

/-- `replace` on every expression of a list. -/
def replaceAll (f : Expr → Option Expr) : List Expr → List Expr
  | [] => []
  | e :: es => e.replace f :: replaceAll f es
termination_by structural es => es

/-- `replace` on both expressions of every pair of a list. -/
def replacePairs (f : Expr → Option Expr) : List (Expr × Expr) → List (Expr × Expr)
  | [] => []
  | (k, v) :: ps => (k.replace f, v.replace f) :: replacePairs f ps
termination_by structural ps => ps

end

/-- The right side of the first rule whose left side equals the expression. -/
def firstRule (rules : List (Expr × Expr)) (e : Expr) : Option Expr :=
  (rules.find? fun r => r.1.same e).map (·.2)

/-! ## Stems -/

/-- The identifier stem of an expression: the names it selects, joined by
underscores. -/
def stem : Expr → String
  | .name n => Text.stem n
  | .scratch s => Text.stem s
  | .attr e n => e.stem ++ "_" ++ Text.stem n
  | .deref e => e.stem
  | .inc e => e.stem
  | .not e => e.stem
  | .cast _ e => e.stem
  | .call e _ => e.stem
  | .index e _ => e.stem ++ "_at"
  | _ => Text.placeholderStem

end Expr

end WrapGen.Code
