import WrapGen.Bundle.Wrapper
/-!
# Wrappers of maps

The bundle of a map type: an iterator class over the keys, an extension class
with lookup, assignment and removal, a class for users, their declarations, and
a test that assigns, looks up and removes through two wrappers of one map.
-/
namespace WrapGen

open Code

namespace Bundle

/-- The doc text of the class that users see. -/
def mapDoc (key value : String) : String :=
  "Wrapper class for C++ standard library maps of type <" ++ key ++ ", " ++ value ++ ">.
Provides dictionary like interface on the Python level.

Parameters
----------
new_map : bool or dict-like
    Boolean on whether to make a new map or not, or dict-like object
    with keys and values which are castable to the appropriate type.
free_map : bool or None
    Flag for whether the pointer to the C++ map should be deallocated
    when the wrapper is dereferenced. Defaults to False when wrapping
    another map and True otherwise.

"

/-- A map is shown as a dict. -/
def mapShown : Expr :=
  .callName "repr" [.callName "dict" [self.method "items" []]]

/-- The key at what a position in a map refers to. -/
def keyAt (entry : Expr) : Expr := .attr entry "first"

/-- The declarations for the conversion of a key and a value. -/
def entryDecls (key value : Argument) : List Stmt :=
  key.recipe.decls ++ value.recipe.decls

/-- The conversion of a key and a value, and the assignment in the map. -/
def storeEntry (key value : Argument) : List Stmt :=
  key.recipe.setup ++ value.recipe.setup ++
    [.assign (.index (.deref Vocabulary.map.container) key.recipe.result) value.recipe.result]

/-- The constructor of a map wrapper; a mapping or a collection of pairs is
assigned entry by entry. -/
def mapInitMethod (n : WrapperNames) (key value : Argument) : Function :=
  let w := Vocabulary.map
  let copyFrom (pairs : Expr) : List Stmt :=
    [w.allocate n, .forEach [key.name, value.name] pairs (storeEntry key value), w.owns true]
  w.initMethod n (entryDecls key value)
    [(.hasAttr w.initial "items", copyFrom (w.initial.method "items" [])),
     (.hasAttr w.initial "__len__", copyFrom w.initial)]

/-- The lookup: a mistyped key is a type error, an absent one a key error. -/
def getMethod (key : Argument) (accepted : Expr) (valueStorage : String) (found : Recipe) :
    Function :=
  let w := Vocabulary.map
  let k := Expr.name "k"
  let v := Expr.name "v"
  method "__getitem__" [.plain key.name]
    (key.declsFor "k" ++ .decl valueStorage v :: found.decls)
    (.when (.not accepted) [raiseType key.names.human "keys"] ::
      key.convertOr "k" [raiseKey key.expr] ++
      [.ifElse (countPositive w.container k)
        (.assign v (.index (.deref w.container) k) :: found.setup ++ [.give found.result])
        [raiseKey key.expr]])

/-- The assignment, which inserts or replaces, after the guards. -/
def putMethod (key value : Argument) (guards : List Stmt) : Function :=
  method "__setitem__" [.plain key.name, .plain value.name] (entryDecls key value)
    (guards ++ storeEntry key value)

/-- The statements of the scenario test of a map wrapper. The samples of values
are taken from the last to the first. -/
def mapScenario (n : WrapperNames) (s : Samples) (valueType : ElementType)
    (keys values : List Literal) : List Stmt :=
  let k (i : Nat) : Expr := .literal (sampleAt keys i)
  let sample (i : Nat) : Literal := sampleAt values.reverse i
  let v (i : Nat) : Expr := .literal (sample i)
  let m := Expr.name "m"
  let other := Expr.name "n"
  let make (args : List Expr) := (Expr.name "conv").method n.publicClass args
  let same (actual : Expr) (i : Nat) : Stmt := assertSame s valueType actual (sample i)
  let raises (error : String) (arg : Expr) : Stmt :=
    .call "assert_raises" [.name error, .attr m "__getitem__", arg]
  [.assign m (make []),
   .assign (.index m (k 0)) (v 0),
   .assign (.index m (k 1)) (v 1),
   assertLength "m" 2,
   same (.index m (k 1)) 1,
   raises "KeyError" (k 2),
   raises "TypeError" .none,
   assertNoneAbsent m,
   .blank,
   .assign m (make [.dict [(k 2, v 2), (k 3, v 3)]]),
   assertLength "m" 2,
   same (.index m (k 2)) 2,
   .blank,
   .assign other (make [m, .bool false]),
   assertLength "n" 2,
   same (.index other (k 2)) 2,
   .blank,
   .comment "points to the same underlying map",
   .assign (.index other (k 2)) (v 3),
   same (.index m (k 2)) 3,
   .delete (.index other (k 0)),
   assertLength "m" 2,
   .delete (.index other (k 3)),
   assertLength "m" 1,
   .blank] ++
  exhaustionChecks "m" 1

end Bundle

namespace Generator

open WrapGen.Bundle

/-- The implementation of the wrapper of a map. -/
def mapImplementation (g : Generator) (names : MapNames) (keyType valueType : ElementType) :
    Except DescriptorError Fragment := do
  let n := names.wrapper
  let w := Vocabulary.map
  let key ← Argument.of g.catalog "key" keyType names.key
  let value ← Argument.of g.catalog "value" valueType names.value
  let found ← g.catalog.toHost (.name "v") valueType
  let accepted ← typeCheck g.catalog key.expr keyType
  let keyGuards ← insertionGuard g key.expr keyType "keys"
  let valueGuards ← insertionGuard g value.expr valueType "values"
  let iterator ← (w.iteratorPlan n keyType keyAt).classDef g.catalog
  return [
    .comment n.publicClass,
    .classDef iterator,
    .classDef (extensionClass n
      [mapInitMethod n key value, w.releaseMethod, w.containsMethod key accepted "k",
       w.lengthMethod, w.iterMethod n, getMethod key accepted names.value.storage found,
       putMethod key value (keyGuards ++ valueGuards), w.removeMethod "__delitem__" key "k"]),
    .classDef (publicClass n "collections.abc.MutableMapping"
      (mapDoc names.key.human names.value.human) mapShown)]

/-- The bundle of the maps from `key` to `value`. -/
def mapWrapper (g : Generator) (key value : ElementType) : Except DescriptorError Bundle := do
  let key ← key.asKey
  let names ← MapNames.of g.catalog key value
  let implementation ← g.mapImplementation names key value
  let keys ← g.samples.values key
  let values ← g.samples.values value
  let n := names.wrapper
  return {
    implementation
    interface := Vocabulary.map.interfaceFragment n (Vocabulary.map.iteratorPlan n key keyAt)
    tests := testFragment n (mapScenario n g.samples value keys values) }

end Generator

end WrapGen
