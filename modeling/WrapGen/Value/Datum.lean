import WrapGen.Binary.Word
import WrapGen.Element.Integer
/-!
# Storage values

A datum is a value in storage. Data of all kinds are totally ordered: by kind
first, floats by the total order of their bits, and composites item by item. Sets
and maps hold their items in this order, each key once; the functions on lists
that keep it so are in `WrapGen.Value.Ordered`.
-/
namespace WrapGen

open Binary

/-- A value in storage. -/
inductive Datum where
  | str (s : String)
  | integer (k : IntegerKind) (n : k.Ranged)
  | float32 (x : Single)
  | float64 (x : Double)
  | complex (re im : Double)
  | vector (items : List Datum)
  | set (items : List Datum)
  | map (entries : List (Datum × Datum))

namespace Datum

/-- The place of the kind of a datum among all kinds. -/
def rank : Datum → Nat
  | .str _ => 0
  | .integer k _ => k.rank
  | .float32 _ => 5
  | .float64 _ => 6
  | .complex _ _ => 7
  | .vector _ => 8
  | .set _ => 9
  | .map _ => 10

mutual

/-- The total order of data. -/
def compare : Datum → Datum → Ordering
  | .str s, .str t => Ord.compare s t
  | .integer j m, .integer k n => (Ord.compare j.rank k.rank).then (Ord.compare m.val n.val)
  | .float32 x, .float32 y => x.compare y
  | .float64 x, .float64 y => x.compare y
  | .complex a b, .complex c d => (a.compare c).then (b.compare d)
  | .vector xs, .vector ys => compareItems xs ys
  | .set xs, .set ys => compareItems xs ys
  | .map ps, .map qs => compareEntries ps qs
  | a, b => Ord.compare a.rank b.rank
termination_by structural a => a

/-- Items compared one by one; a list comes before its extensions. -/
def compareItems : List Datum → List Datum → Ordering
  | [], [] => .eq
  | [], _ :: _ => .lt
  | _ :: _, [] => .gt
  | x :: xs, y :: ys => (compare x y).then (compareItems xs ys)
termination_by structural xs => xs

/-- Entries compared one by one, each by its key first. -/
def compareEntries : List (Datum × Datum) → List (Datum × Datum) → Ordering
  | [], [] => .eq
  | [], _ :: _ => .lt
  | _ :: _, [] => .gt
  | (k, v) :: ps, (l, w) :: qs =>
    ((compare k l).then (compare v w)).then (compareEntries ps qs)
termination_by structural ps => ps

end

end Datum

end WrapGen
