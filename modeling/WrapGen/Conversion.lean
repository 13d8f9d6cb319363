import WrapGen.Catalog.Spelling
/-!
# Conversion code

The code that converts one value of an element type between the host and
storage. A primitive binds its recipe. A composite fills a fresh container in a
loop whose body converts the elements. The names of the container, of the loop
variables and of the positions extend the stem of the value, so that no level
uses a name of another; the declarations of all levels stand in one list.
-/
namespace WrapGen

open Code

/-! ## Loops over a container -/

namespace Code.Recipe

/-- Fills the storage container `stem_cpp` from the items of a host value. -/
def storeItems (stem storage insertion : String) (source : Expr) (item : Recipe) : Recipe :=
  let target := Expr.name (stem ++ "_cpp")
  { decls := .decl storage target :: item.decls
    setup :=
      [.assign target (.callName storage []),
       .forEach [stem ++ "_item"] source
        (item.setup ++ [.expr (target.method insertion [item.result])])]
    result := target }

/-- Fills the storage map `stem_cpp` from the entries of a host value. -/
def storeEntries (stem storage : String) (source : Expr) (key value : Recipe) : Recipe :=
  let target := Expr.name (stem ++ "_cpp")
  { decls := .decl storage target :: (key.decls ++ value.decls)
    setup :=
      [.assign target (.callName storage []),
       .forEach [stem ++ "_key", stem ++ "_val"] (source.method "items" [])
        (key.setup ++ value.setup ++ [.assign (.index target key.result) value.result])]
    result := target }

/-- Walks a storage container with the position `stem_iter` and fills the host
value `stem_py`, which starts as `empty`. -/
def walk (stem storage : String) (source empty : Expr) (decls body : List Stmt) : Recipe :=
  let target := Expr.name (stem ++ "_py")
  let position := Expr.name (stem ++ "_iter")
  { decls := .decl (storage ++ ".iterator") position :: decls
    setup :=
      [.assign target empty,
       .assign position (source.method "begin" []),
       .loop (.binary .notEq position (source.method "end" []))
        (body ++ [.expr (.inc position)])]
    result := target }

/-- Walks a storage container and adds every item to the host value. -/
def loadItems (stem storage addition : String) (source empty : Expr) (item : Recipe) : Recipe :=
  walk stem storage source empty item.decls
    (item.setup ++ [.expr ((Expr.name (stem ++ "_py")).method addition [item.result])])

/-- Walks a storage map and sets every entry of the host value. -/
def loadEntries (stem storage : String) (source : Expr) (key value : Recipe) : Recipe :=
  walk stem storage source (.dict []) (key.decls ++ value.decls)
    (key.setup ++ value.setup ++
      [.assign (.index (Expr.name (stem ++ "_py")) key.result) value.result])

end Code.Recipe

/-! ## Conversion of every type -/

namespace Catalog

/-- The code that makes a storage value from the host value `source`. -/
def toStorage (c : Catalog) (source : Expr) : ElementType → Except DescriptorError Recipe
  | .primitive p => do
    let entry ← c.entry p
    return entry.toStorage.bind source source.stem
  | .vector e => do
    let stem := source.stem
    let storage ← c.storageType (.vector e)
    let item ← c.toStorage (.name (stem ++ "_item")) e
    return .storeItems stem storage "push_back" source item
  | .set e => do
    let stem := source.stem
    let storage ← c.storageType (.set e)
    let item ← c.toStorage (.name (stem ++ "_item")) e
    return .storeItems stem storage "insert" source item
  | .map k v => do
    let stem := source.stem
    let storage ← c.storageType (.map k v)
    let key ← c.toStorage (.name (stem ++ "_key")) k
    let value ← c.toStorage (.name (stem ++ "_val")) v
    return .storeEntries stem storage source key value

/-- The code that makes a host value from the storage value `source`. -/
def toHost (c : Catalog) (source : Expr) : ElementType → Except DescriptorError Recipe
  | .primitive p => do
    let entry ← c.entry p
    return entry.toHost.bind source source.stem
  | .vector e => do
    let stem := source.stem
    let storage ← c.storageType (.vector e)
    let item ← c.toHost (.deref (.name (stem ++ "_iter"))) e
    return .loadItems stem storage "append" source (.list []) item
  | .set e => do
    let stem := source.stem
    let storage ← c.storageType (.set e)
    let item ← c.toHost (.deref (.name (stem ++ "_iter"))) e
    return .loadItems stem storage "add" source (.callName "set" []) item
  | .map k v => do
    let stem := source.stem
    let storage ← c.storageType (.map k v)
    let position := Expr.deref (.name (stem ++ "_iter"))
    let key ← c.toHost (.attr position "first") k
    let value ← c.toHost (.attr position "second") v
    return .loadEntries stem storage source key value

end Catalog

end WrapGen
