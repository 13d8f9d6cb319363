import WrapGen.Catalog.Spelling
import WrapGen.Element.Basic
/-!
# The list of element types

A table of the primitives of a catalog: token, name for people, whether it may be
a key, and storage type. The first three columns have fixed widths.
-/
namespace WrapGen

namespace Catalog

/-- A text with spaces after it up to a width. -/
def padded (width : Nat) (s : String) : String :=
  s ++ String.ofList (List.replicate (width - s.length) ' ')

/-- A row of the table. -/
def row (token name key storage : String) : String :=
  padded 12 token ++ " " ++ padded 16 name ++ " " ++ padded 8 key ++ " " ++ storage ++ "\n"

/-- The row of a primitive. -/
def primitiveRow (c : Catalog) (p : Primitive) (e : Entry) : Except DescriptorError String := do
  let storage ← c.storageType (.primitive p)
  return row p.token e.humanName (if p.isOrdered then "yes" else "no") storage

/-- What follows the table. -/
def containersNote : String :=
  "\nContainers: vector<T>, set<K>, map<K, V> (K must be a key type)\n"

/-- The table of a catalog. -/
def listing (c : Catalog) : Except DescriptorError String := do
  let rows ← c.primitives.mapM fun pe => c.primitiveRow pe.1 pe.2
  return row "token" "name" "key" "storage" ++ String.join rows ++ containersNote

end Catalog

end WrapGen
