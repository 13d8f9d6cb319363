import WrapGen.Element.Basic
/-!
# Descriptor errors

Why a descriptor has no element type. An error is a cause; `message` is its
wording.
-/
namespace WrapGen

/-- Why a text is no descriptor. -/
inductive Malformation where
  | expectedName
  | expectedSeparator
  | tooDeep
  | trailingInput
  deriving DecidableEq, Repr

/-- The wording of a malformation. -/
def Malformation.message : Malformation → String
  | expectedName => "expected a type name"
  | expectedSeparator => "expected `,` or `>`"
  | tooDeep => "nesting too deep"
  | trailingInput => "unexpected trailing input"

/-- Why a descriptor names no element type. -/
inductive DescriptorError where
  /-- The catalog has no such token or head, or no entry for it. -/
  | unknownType (token : String)
  /-- The number of arguments does not fit. -/
  | arity (head : String) (expected found : Nat)
  /-- A set element or map key is no ordered primitive. -/
  | unorderedKey (type : ElementType)
  /-- The text is no descriptor. -/
  | malformed (text : String) (reason : Malformation)
  deriving DecidableEq, Repr

/-- The wording of a descriptor error. -/
def DescriptorError.message : DescriptorError → String
  | unknownType token => "unknown type `" ++ token ++ "`"
  | arity head expected found =>
    "`" ++ head ++ "` expects " ++ toString expected ++ " type argument(s), found " ++ toString found
  | unorderedKey type =>
    "`" ++ type.text ++
      "` cannot be a set element or map key: only ordered primitive types are allowed"
  | malformed text reason => "malformed type descriptor `" ++ text ++ "`: " ++ reason.message

end WrapGen
