import WrapGen.Binary.Word
/-!
# Literals

The literal values that generated code holds. Sets and dicts keep the order and
the duplicates they were written with.
-/
namespace WrapGen.Code

open Binary

/-- A literal value in generated code. -/
inductive Literal where
  | none
  | bool (b : Bool)
  | int (n : Int)
  | float (x : Double)
  | complex (re im : Double)
  | str (s : String)
  | list (items : List Literal)
  | set (items : List Literal)
  | dict (pairs : List (Literal × Literal))

namespace Literal

mutual

/-- Whether two literals are written alike, floats compared as numbers. -/
def same : Literal → Literal → Bool
  | .none, .none => true
  | .bool a, .bool b => a == b
  | .int m, .int n => m == n
  | .float x, .float y => x.same y
  | .complex a b, .complex c d => a.same c && b.same d
  | .str s, .str t => s == t
  | .list xs, .list ys => sameAll xs ys
  | .set xs, .set ys => sameAll xs ys
  | .dict ps, .dict qs => samePairs ps qs
  | _, _ => false
termination_by structural a => a

/-- Literals compared one by one. -/
def sameAll : List Literal → List Literal → Bool
  | [], [] => true
  | x :: xs, y :: ys => same x y && sameAll xs ys
  | _, _ => false
termination_by structural xs => xs

/-- Pairs of literals compared one by one. -/
def samePairs : List (Literal × Literal) → List (Literal × Literal) → Bool
  | [], [] => true
  | (k, v) :: ps, (l, w) :: qs => same k l && same v w && samePairs ps qs
  | _, _ => false
termination_by structural ps => ps

end

end Literal

end WrapGen.Code
