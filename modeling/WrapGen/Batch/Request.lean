import WrapGen.Bundle.SetWrapper
import WrapGen.Bundle.MapWrapper
import WrapGen.Bundle.Converters
/-!
# Requests

A request is written as the tag of a shape and the texts of its types. Resolving
it checks the tag, then the number of types, then the types from left to right.
-/
namespace WrapGen

/-- What a request asks for. -/
inductive Shape where
  | set
  | map
  | setConverters
  | mapConverters
  deriving DecidableEq, Repr

namespace Shape

/-- Every shape. -/
def all : List Shape := [set, map, setConverters, mapConverters]

/-- The tag that a shape is written as. -/
def tag : Shape → String
  | set => "set"
  | map => "map"
  | setConverters => "py2c_set"
  | mapConverters => "py2c_map"

/-- The number of types that a shape takes. -/
def arity : Shape → Nat
  | set | setConverters => 1
  | map | mapConverters => 2

end Shape

/-- Why a request or a batch has no code. -/
inductive RequestError where
  /-- No shape has the tag. -/
  | unknownShape (tag : String)
  /-- The number of types does not fit. -/
  | arity (shape : Shape) (found : Nat)
  /-- A request without a tag. -/
  | empty
  /-- A type is at fault. -/
  | type (e : DescriptorError)
  deriving DecidableEq, Repr

/-- The wording of a request error. -/
def RequestError.message : RequestError → String
  | unknownShape tag => "unknown instantiation shape `" ++ tag ++ "`"
  | arity shape found =>
    "`" ++ shape.tag ++ "` takes " ++ toString shape.arity ++ " type argument(s), found " ++
      toString found
  | empty => "empty instantiation request"
  | type e => e.message

/-- The shape of a tag. -/
def Shape.ofTag (tag : String) : Except RequestError Shape :=
  match all.find? fun s => s.tag == tag with
  | some s => .ok s
  | none => .error (.unknownShape tag)

/-- A request as written: a tag, then the texts of types. -/
abbrev RequestText := List String

/-- A request as one text. -/
def RequestText.text (r : RequestText) : String := "(" ++ ", ".intercalate r ++ ")"

/-- A request with its types known. -/
inductive Request where
  | set (element : ElementType)
  | map (key value : ElementType)
  | setConverters (element : ElementType)
  | mapConverters (key value : ElementType)
  deriving DecidableEq, Repr

namespace Request

/-- The shape of a request. -/
def shape : Request → Shape
  | set _ => .set
  | map _ _ => .map
  | setConverters _ => .setConverters
  | mapConverters _ _ => .mapConverters

/-- The types of a request. -/
def types : Request → List ElementType
  | set e | setConverters e => [e]
  | map k v | mapConverters k v => [k, v]

/-- The request of a shape with the given types, if their number fits. -/
def ofTypes (s : Shape) (ts : List ElementType) : Except RequestError Request :=
  match s, ts with
  | .set, [e] => .ok (.set e)
  | .map, [k, v] => .ok (.map k v)
  | .setConverters, [e] => .ok (.setConverters e)
  | .mapConverters, [k, v] => .ok (.mapConverters k v)
  | s, ts => .error (.arity s ts.length)

/-- The type that a text names, its faults as faults of a request. -/
def resolveType (c : Catalog) (text : String) : Except RequestError ElementType :=
  (c.resolveText text).mapError .type

/-- The request that a text writes. -/
def resolve (c : Catalog) : RequestText → Except RequestError Request
  | [] => .error .empty
  | tag :: texts => do
    let shape ← Shape.ofTag tag
    if texts.length ≠ shape.arity then
      throw (.arity shape texts.length)
    let types ← texts.mapM (resolveType c)
    ofTypes shape types

/-- The code of a request. -/
def bundle (g : Generator) (r : Request) : Except RequestError Bundle :=
  let made := match r with
    | set e => g.setWrapper e
    | map k v => g.mapWrapper k v
    | setConverters e => g.setConverters e
    | mapConverters k v => g.mapConverters k v
  made.mapError .type

end Request

end WrapGen
