import WrapGen.Descriptor.Basic
import WrapGen.Element.Primitive
/-!
# Element types

An element type is a type in normal form: a primitive, or a vector, set or map
of element types. It is what every name, every conversion and every generated
line depends on, however a request spelled it.
-/
namespace WrapGen

/-- The containers that may occur inside element types. -/
inductive Container where
  | vector
  | set
  | map
  deriving DecidableEq, Repr

namespace Container

/-- The head a container is written with. -/
def token : Container → String
  | vector => "vector"
  | set => "set"
  | map => "map"

/-- The number of type arguments a container takes. -/
def arity : Container → Nat
  | vector | set => 1
  | map => 2

end Container

/-- A type in normal form. -/
inductive ElementType where
  | primitive (p : Primitive)
  | vector (element : ElementType)
  | set (element : ElementType)
  | map (key value : ElementType)
  deriving DecidableEq, Repr

namespace ElementType

/-- The primitive, if the type is one. -/
def primitive? : ElementType → Option Primitive
  | primitive p => some p
  | _ => none

/-- Whether the type may be a set element or a map key: an ordered primitive. -/
def isKey (t : ElementType) : Bool :=
  t.primitive?.any Primitive.isOrdered

/-- Whether the type is stored as an integer of fixed width. -/
def isInteger (t : ElementType) : Bool :=
  t.primitive?.any Primitive.isInteger

/-- The token of the primitive or of the outermost container. -/
def headToken : ElementType → String
  | primitive p => p.token
  | vector _ => Container.vector.token
  | set _ => Container.set.token
  | map _ _ => Container.map.token

/-- The descriptor that spells a type with the tokens of the normal form. -/
def toDescriptor : ElementType → Descriptor
  | primitive p => .token p.token
  | vector e => .applied Container.vector.token [e.toDescriptor]
  | set e => .applied Container.set.token [e.toDescriptor]
  | map k v => .applied Container.map.token [k.toDescriptor, v.toDescriptor]

/-- The text of a type. -/
def text (t : ElementType) : String := t.toDescriptor.text

instance : ToString ElementType := ⟨text⟩

/-- The tokens of a type joined by underscores, for use in an identifier. -/
def ident : ElementType → String
  | primitive p => p.token
  | vector e => "vector_" ++ e.ident
  | set e => "set_" ++ e.ident
  | map k v => "map_" ++ k.ident ++ "_" ++ v.ident

end ElementType

end WrapGen
