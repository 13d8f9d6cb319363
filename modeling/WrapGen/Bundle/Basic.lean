import WrapGen.Bundle.Names
import WrapGen.Catalog.Resolve
import WrapGen.Code.Item
import WrapGen.CodeUnit
import WrapGen.Conversion
import WrapGen.Samples
/-!
# Bundles and generators

A bundle is the generated code of one request: a fragment for each of the three
units. A generator holds what bundles are made from: the catalog, the samples
for tests, and whether insertion checks the kind of its arguments first.

The rest of the module are the pieces that set and map wrappers share: the checks
of kinds, the arguments of methods with the guards around their conversion, and the
checks of scenario tests.
-/
namespace WrapGen

open Code

/-- Whether insertion checks the kinds of its arguments before it converts them. -/
inductive Insertion where
  | permissive
  | strict
  deriving DecidableEq, Repr

/-- The generated code of one request, a fragment in each unit. -/
abbrev Bundle := PerUnit Fragment

/-- What bundles are made from. -/
structure Generator where
  catalog : Catalog
  samples : Samples
  insertion : Insertion

namespace Bundle

/-- The receiver of a method. -/
def self : Expr := .name "self"

/-- A field of the receiver. -/
def selfField (name : String) : Expr := .attr self name

/-- The parameter for the receiver. -/
def selfParam : Param := .plain "self"

/-- A method whose declarations come before its statements. -/
def method (name : String) (args : List Param) (decls stmts : List Stmt) : Function :=
  .hostCallable name (selfParam :: args) (decls ++ stmts)

/-- The raising of a type error. -/
def raiseType (human role : String) : Stmt :=
  .raise (.callName "TypeError" [.str ("Only " ++ human ++ " " ++ role ++ " are valid.")])

/-- The raising of a key error. -/
def raiseKey (key : Expr) : Stmt := .raise (.callName "KeyError" [key])

/-- Whether a storage container holds a key. -/
def countPositive (container key : Expr) : Expr :=
  .binary .lt (.int 0) (container.method "count" [key])

/-- Whether a host value can be iterated over. -/
def isIterable (subject : Expr) : Expr :=
  .binary .or (.hasAttr subject "__iter__")
    (.binary .and (.hasAttr subject "__len__") (.hasAttr subject "__getitem__"))

/-! ## Checks of kinds -/

/-- Whether a host value is of a kind that the type `t` accepts. -/
def typeCheck (c : Catalog) (subject : Expr) (t : ElementType) : Except DescriptorError Expr := do
  let kinds ← c.accepts t
  return .isInstance subject (kinds.map HostKind.name)

/-- The check that strict insertion makes first. -/
def insertionGuard (g : Generator) (subject : Expr) (t : ElementType) (role : String) :
    Except DescriptorError (List Stmt) :=
  match g.insertion with
  | .permissive => return []
  | .strict => do
    let human ← g.catalog.humanName t
    let accepted ← typeCheck g.catalog subject t
    return [.when (.not accepted) [raiseType human role]]

/-! ## Arguments -/

/-- An argument of a method that is converted to storage. -/
structure Argument where
  name : String
  type : ElementType
  names : ElementNames
  /-- The conversion to storage. -/
  recipe : Recipe

namespace Argument

/-- The argument `name` of the type `t`. -/
def of (c : Catalog) (name : String) (t : ElementType) (names : ElementNames) :
    Except DescriptorError Argument := do
  let recipe ← c.toStorage (.name name) t
  return ⟨name, t, names, recipe⟩

/-- The argument as an expression. -/
def expr (a : Argument) : Expr := .name a.name

/-- The declarations for the conversion into the variable `target`. -/
def declsFor (a : Argument) (target : String) : List Stmt :=
  .decl a.names.storage (.name target) :: a.recipe.decls

/-- The conversion into the variable `target`. -/
def convertInto (a : Argument) (target : String) : List Stmt :=
  a.recipe.setup ++ [.assign (.name target) a.recipe.result]

/-- The conversion into the variable `target`; an integer that storage cannot
hold runs `fallback` instead. -/
def convertOr (a : Argument) (target : String) (fallback : List Stmt) : List Stmt :=
  if a.type.isInteger then [.attempt (a.convertInto target) "OverflowError" fallback]
  else a.convertInto target

end Argument

/-! ## Scenario tests -/

/-- An assertion that takes one expression. -/
def assertTrue (e : Expr) : Stmt := .call "assert_true" [e]

/-- The assertion that a container of a name has `n` items. -/
def assertLength (container : String) (n : Int) : Stmt :=
  .call "assert_equal" [.callName "len" [.name container], .int n]

/-- The assertion that no value is no member. -/
def assertNoneAbsent (container : Expr) : Stmt :=
  .call "assert_false" [.binary .isIn .none container]

/-- The checks that an iterator yields `n` items and then ends, twice. -/
def exhaustionChecks (container : String) (n : Int) : List Stmt :=
  let it := Expr.name "it"
  let nextEnds := Stmt.call "assert_raises" [.name "StopIteration", .name "next", it]
  [.assign it (.callName "iter" [.name container]),
   .call "assert_equal" [.callName "len" [.callName "list" [it]], .int n],
   nextEnds,
   nextEnds]

/-- The sample `i`, counted around a list that is too short. -/
def sampleAt (samples : List Literal) (i : Nat) : Literal :=
  (Samples.pick? samples i).getD .none

/-- The assertion that a value of the type `t` is the expected one. -/
def assertSame (s : Samples) (t : ElementType) (actual : Expr) (expected : Literal) : Stmt :=
  let name := match s.comparison t with
    | .equal => "assert_equal"
    | .almost => "assert_almost_equal"
    | .arrayAlmost => "assert_array_almost_equal"
  .call name [actual, .literal expected]

end Bundle

end WrapGen
