import WrapGen.Code.Stmt
/-!
# Functions, classes and fragments

The items that stand at the top level of generated code. A fragment is the code
of one request in one unit, a list of items.
-/
namespace WrapGen.Code

/-- A parameter. One that only has a type has an empty name. -/
structure Param where
  name : String
  type : Option String
  default : Option Expr

namespace Param

/-- A parameter without a type. -/
def plain (name : String) : Param := ⟨name, none, none⟩

/-- A parameter of a storage type. -/
def typed (type name : String) : Param := ⟨name, some type, none⟩

/-- A parameter that only has a type. -/
def anonymous (type : String) : Param := ⟨"", some type, none⟩

/-- A parameter that may be left out. -/
def withDefault (name : String) (value : Expr) : Param := ⟨name, none, some value⟩

end Param

/-- Who may call a function. -/
inductive FunctionKind where
  /-- The host language. -/
  | host
  /-- Generated code only. -/
  | storage
  deriving DecidableEq, Repr

/-- A function or method; without a body it is a declaration. -/
structure Function where
  kind : FunctionKind
  name : String
  params : List Param
  returns : Option String
  doc : Option String
  body : Option (List Stmt)

namespace Function

/-- A function that the host language may call. -/
def hostCallable (name : String) (params : List Param) (body : List Stmt) : Function :=
  ⟨.host, name, params, none, none, some body⟩

/-- A function for generated code, with the storage type it returns. -/
def storageLevel (returns name : String) (params : List Param) (body : List Stmt) : Function :=
  ⟨.storage, name, params, some returns, none, some body⟩

/-- The signature alone. -/
def declaration (f : Function) : Function := { f with body := none, doc := none }

/-- Whether the function has no body. -/
def isDeclaration (f : Function) : Bool := f.body.isNone

end Function

/-- The flavours of classes. -/
inductive ClassKind where
  /-- A class with storage fields. -/
  | extension
  /-- A class of the host language. -/
  | host
  deriving DecidableEq, Repr

/-- A storage field of a class. -/
structure Field where
  type : String
  name : String
  isPublic : Bool
  deriving DecidableEq, Repr

/-- A class. -/
structure ClassDef where
  kind : ClassKind
  name : String
  bases : List String
  doc : Option String
  fields : List Field
  methods : List Function

/-- An item at the top level. -/
inductive Item where
  | comment (text : String)
  | classDef (c : ClassDef)
  | function (f : Function)

/-- The code of one request in one unit. -/
abbrev Fragment := List Item

end WrapGen.Code
