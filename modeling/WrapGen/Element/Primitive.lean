/-!
# Primitive element types and host kinds

The eight primitive element types, and the kinds of host values that a wrapper
may accept for an element.
-/
namespace WrapGen

/-- A primitive element type. -/
inductive Primitive where
  | str
  | int32
  | uint32
  | int64
  | uint64
  | float32
  | float64
  | complex128
  deriving DecidableEq, Repr

namespace Primitive

/-- Every primitive, in catalog order. -/
def all : List Primitive :=
  [str, int32, uint32, int64, uint64, float32, float64, complex128]

/-- The token a primitive is written as. -/
def token : Primitive → String
  | str => "str"
  | int32 => "int32"
  | uint32 => "uint32"
  | int64 => "int64"
  | uint64 => "uint64"
  | float32 => "float32"
  | float64 => "float64"
  | complex128 => "complex128"

/-- Whether storage is an integer of fixed width, so that a value may not fit. -/
def isInteger : Primitive → Bool
  | int32 | uint32 | int64 | uint64 => true
  | str | float32 | float64 | complex128 => false

/-- Whether the values are ordered, so that they can be set elements and map keys. -/
def isOrdered : Primitive → Bool
  | complex128 => false
  | _ => true

end Primitive

/-- The kinds of host values. -/
inductive HostKind where
  | str
  | int
  | float
  | complex
  | list
  | tuple
  | ndarray
  | set
  | frozenset
  | dict
  deriving DecidableEq, Repr

namespace HostKind

/-- The name of a kind in the host language. -/
def name : HostKind → String
  | str => "str"
  | int => "int"
  | float => "float"
  | complex => "complex"
  | list => "list"
  | tuple => "tuple"
  | ndarray => "np.ndarray"
  | set => "set"
  | frozenset => "frozenset"
  | dict => "dict"

/-- Every kind of host value. -/
def all : List HostKind :=
  [str, int, float, complex, list, tuple, ndarray, set, frozenset, dict]

end HostKind

end WrapGen
