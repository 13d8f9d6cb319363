import WrapGen.Catalog.Basic
/-!
# The built-in catalog

The primitives of the C++ standard library wrappers, with their tokens, names,
storage types and recipes. Integers and floats are cast on the way in and
called with the host type on the way out; a text passes through its bytes, and
a complex number through a proxy with two fields.
-/
namespace WrapGen

open Code

namespace Code.Recipe

/-- The value cast to a storage type. -/
def cast (type : String) : Recipe := .ofResult (.cast type .hole)

/-- A function called with the value. -/
def wrap (function : String) : Recipe := .ofResult (.callName function [.hole])

/-- A text is encoded into a temporary that the storage text is made from. -/
def textToStorage : Recipe where
  decls := [.decl "bytes" (.scratch "bytes")]
  setup := [.assign (.scratch "bytes") (Expr.hole.method "encode" [])]
  result := .construct "std_string" [.cast "char *" (.scratch "bytes")]

/-- A storage text is read as bytes and decoded. -/
def textToHost : Recipe :=
  .ofResult <|
    (Expr.callName "bytes" [.cast "char *" (Expr.hole.method "c_str" [])]).method "decode" []

/-- The storage type of complex numbers. -/
def complexType : String := "xdress_extra_types.complex_t"

/-- Both parts of a complex number are set in a proxy. -/
def complexToStorage : Recipe where
  decls := [.decl complexType (.scratch "proxy")]
  setup :=
    [.assign (.attr (.scratch "proxy") "re") (.attr .hole "real"),
     .assign (.attr (.scratch "proxy") "im") (.attr .hole "imag")]
  result := .scratch "proxy"

/-- A complex number is made from its two parts. -/
def complexToHost : Recipe :=
  let part (field : String) := Expr.callName "float" [.attr .hole field]
  .ofResult (.callName "complex" [part "re", part "im"])

end Code.Recipe

namespace Catalog

/-- An integer primitive. -/
def integerEntry (human classPart functionPart storage : String) : Entry :=
  ⟨human, classPart, functionPart, storage, [.int], Recipe.cast storage, Recipe.wrap "int"⟩

/-- A float primitive. -/
def floatEntry (human classPart functionPart storage : String) : Entry :=
  ⟨human, classPart, functionPart, storage, [.float, .int], Recipe.cast storage,
    Recipe.wrap "float"⟩

/-- Text. -/
def textEntry : Entry :=
  ⟨"str", "Str", "str", "std_string", [.str], Recipe.textToStorage, Recipe.textToHost⟩

/-- Complex numbers. -/
def complexEntry : Entry :=
  ⟨"complex", "Complex", "cmplx", Recipe.complexType, [.complex, .float, .int],
    Recipe.complexToStorage, Recipe.complexToHost⟩

/-- The catalog of the built-in primitives. -/
def builtin : Catalog :=
  containers
    |>.register .str ["string", "std::string"] textEntry
    |>.register .int32 ["int", "i32"] (integerEntry "int" "Int" "int" "int")
    |>.register .uint32 ["uint", "unsigned int", "u32"]
      (integerEntry "unsigned int" "UInt" "uint" "unsigned int")
    |>.register .int64 ["long", "i64"] (integerEntry "long" "Long" "long" "long long")
    |>.register .uint64 ["ulong", "u64"]
      (integerEntry "unsigned long" "ULong" "ulong" "unsigned long long")
    |>.register .float32 ["float", "f32"] (floatEntry "float" "Float" "flt" "float")
    |>.register .float64 ["double", "f64"] (floatEntry "double" "Double" "dbl" "double")
    |>.register .complex128 ["complex"] complexEntry

end Catalog

end WrapGen
