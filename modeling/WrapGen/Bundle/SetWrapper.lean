import WrapGen.Bundle.Wrapper
/-!
# Wrappers of sets

The bundle of a set type: an iterator class, an extension class with membership,
insertion and removal, a class for users, their declarations, and a test that
adds, discards and iterates.
-/
namespace WrapGen

open Code

namespace Bundle

/-- The doc text of the class that users see. -/
def setDoc (element : String) : String :=
  "Wrapper class for C++ standard library sets of type <" ++ element ++ ">.
Provides set like interface on the Python level.

Parameters
----------
new_set : bool or set-like
    Boolean on whether to make a new set or not, or set-like object
    with values which are castable to the appropriate type.
free_set : bool or None
    Flag for whether the pointer to the C++ set should be deallocated
    when the wrapper is dereferenced. Defaults to False when wrapping
    another set and True otherwise.

"

/-- A set is shown as a list of its items inside the name of its type. -/
def setShown : Expr :=
  let items := (Expr.str ", ").method "join" [.callName "map" [.name "repr", self]]
  (Expr.str "set([\x7b0\x7d])").method "format" [items]

/-- The constructor of a set wrapper; a collection is inserted item by item. -/
def setInitMethod (n : WrapperNames) (value : Argument) : Function :=
  let w := Vocabulary.set
  let insertItem := value.convertInto "s" ++ [.expr (w.container.method "insert" [.name "s"])]
  w.initMethod n (value.declsFor "s")
    [(isIterable w.initial,
      [w.allocate n, .forEach [value.name] w.initial insertItem, w.owns true])]

/-- The method that inserts a value, after its guard. -/
def addMethod (value : Argument) (guards : List Stmt) : Function :=
  method "add" [.plain value.name] (value.declsFor "v")
    (guards ++ value.convertInto "v" ++
      [.expr (Vocabulary.set.container.method "insert" [.name "v"])])

/-- The statements of the scenario test of a set wrapper. -/
def setScenario (n : WrapperNames) (samples : List Literal) : List Stmt :=
  let t (i : Nat) : Expr := .literal (sampleAt samples i)
  let s := Expr.name "s"
  let make (args : List Expr) := (Expr.name "conv").method n.publicClass args
  [.assign s (make []),
   .expr (s.method "add" [t 0]),
   assertTrue (.binary .isIn (t 0) s),
   assertTrue (.binary .notIn (t 2) s),
   .expr (s.method "add" [t 0]),
   assertLength "s" 1,
   .expr (s.method "discard" [t 1]),
   assertLength "s" 1,
   .blank,
   .assign s (make [.list [t 0, t 1, t 2]]),
   assertTrue (.binary .isIn (t 1) s),
   assertTrue (.binary .notIn (t 3) s),
   assertNoneAbsent s,
   .expr (s.method "discard" [t 2]),
   assertLength "s" 2,
   .blank] ++
  exhaustionChecks "s" 2

end Bundle

namespace Generator

open WrapGen.Bundle

/-- The implementation of the wrapper of a set. -/
def setImplementation (g : Generator) (names : SetNames) (element : ElementType) :
    Except DescriptorError Fragment := do
  let n := names.wrapper
  let w := Vocabulary.set
  let value ← Argument.of g.catalog "value" element names.element
  let accepted ← typeCheck g.catalog value.expr element
  let guards ← insertionGuard g value.expr element "values"
  let iterator ← (w.iteratorPlan n element id).classDef g.catalog
  return [
    .comment n.publicClass,
    .classDef iterator,
    .classDef (extensionClass n
      [setInitMethod n value, w.releaseMethod, w.containsMethod value accepted "s",
       w.lengthMethod, w.iterMethod n, addMethod value guards,
       w.removeMethod "discard" value "v"]),
    .classDef (publicClass n "collections.abc.Set" (setDoc names.element.human) setShown)]

/-- The bundle of the sets of `element`. -/
def setWrapper (g : Generator) (element : ElementType) : Except DescriptorError Bundle := do
  let element ← element.asKey
  let names ← SetNames.of g.catalog element
  let implementation ← g.setImplementation names element
  let samples ← g.samples.values element
  let n := names.wrapper
  return {
    implementation
    interface := Vocabulary.set.interfaceFragment n (Vocabulary.set.iteratorPlan n element id)
    tests := testFragment n (setScenario n samples) }

end Generator

end WrapGen
