import WrapGen.Catalog.Resolve
import WrapGen.Code.Literal
/-!
# Sample values

Generated tests need a few distinct values of every element type. Samples of a
composite are put together from samples of its elements, so that every nesting
has some.
-/
namespace WrapGen

open Code Binary

/-- How generated tests compare two values. -/
inductive Comparison where
  | equal
  /-- Floats up to a tolerance. -/
  | almost
  /-- Vectors of numbers up to a tolerance. -/
  | arrayAlmost
  deriving DecidableEq, Repr

/-- How values of a type are compared: single precision up to a tolerance, and
vectors of numbers element by element. -/
def Comparison.ofType : ElementType → Comparison
  | .primitive .float32 => .almost
  | .vector (.primitive .str) => .equal
  | .vector (.primitive _) => .arrayAlmost
  | _ => .equal

/-- Where generated tests take their values from. -/
structure Samples where
  values : ElementType → Except DescriptorError (List Literal)
  comparison : ElementType → Comparison

namespace Samples

/-- The sample `i`, counted around a list that is too short. -/
def pick? (base : List Literal) (i : Nat) : Option Literal := base[i % base.length]?

/-- The samples at several places. -/
def pickAll (base : List Literal) (places : List Nat) : List Literal :=
  places.filterMap (pick? base)

/-- A sample of each of two lists. -/
def pickPair? (keys values : List Literal) (place : Nat × Nat) : Option (Literal × Literal) :=
  match pick? keys place.1, pick? values place.2 with
  | some k, some v => some (k, v)
  | _, _ => none

/-- A float literal. -/
def float (x : Float) : Literal := .float (Double.ofFloat x)

/-- A complex literal. -/
def complex (re im : Float) : Literal := .complex (Double.ofFloat re) (Double.ofFloat im)

/-- Four samples of a primitive; those of `float32` are exact in single precision. -/
def ofPrimitive : Primitive → List Literal
  | .str => ["Aha", "Take", "Me", "On"].map .str
  | .int32 => [1, 42, -65, 18].map .int
  | .uint32 => [1, 65, 4043370667, 42].map .int
  | .int64 => [1, 42, -6500000000, 18].map .int
  | .uint64 => [1, 65, 9000000000, 42].map .int
  | .float32 => [1.0, 42.5, -65.25, 18.0].map float
  | .float64 => [1.0, 42.42, -65.5555, 18.0].map float
  | .complex128 => [complex 1.0 0.0, complex 42.0 42.0, complex (-65.55) (-1.0), complex 0.0 0.18]

/-- Four samples of a type. -/
def ofType : ElementType → List Literal
  | .primitive p => ofPrimitive p
  | .vector e =>
    let base := ofType e
    [[0, 1], [1, 2, 3], [2], [3, 0]].map fun places => .list (pickAll base places)
  | .set e =>
    let base := ofType e
    [[0, 1], [2], [1, 3], [0, 2, 3]].map fun places => .set (pickAll base places)
  | .map k v =>
    let keys := ofType k
    let values := ofType v
    [[(0, 0)], [(1, 1), (2, 2)], [(3, 3)], [(0, 3), (2, 1)]].map fun places =>
      .dict (places.filterMap (pickPair? keys values))

/-- The samples of the built-in primitives. -/
def builtin : Samples := ⟨fun t => .ok (ofType t), Comparison.ofType⟩

end Samples

end WrapGen
