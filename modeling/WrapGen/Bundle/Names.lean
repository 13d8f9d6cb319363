import WrapGen.Catalog.Spelling
/-!
# Names of generated code

The names of the classes, functions and storage types of a wrapper family or of
a pair of converters. They depend on the catalog and the element types alone.
-/
namespace WrapGen.Bundle

/-- The names that set and map wrappers have in common. -/
structure WrapperNames where
  /-- The class that users see. -/
  publicClass : String
  /-- The extension class that holds the storage. -/
  extensionClass : String
  iteratorClass : String
  /-- The storage type of the container. -/
  storage : String
  /-- The function with the scenario test. -/
  test : String
  deriving DecidableEq, Repr

/-- The storage type and the name for people of an element type. -/
structure ElementNames where
  storage : String
  human : String
  deriving DecidableEq, Repr

/-- The names of an element type. -/
def ElementNames.of (c : Catalog) (t : ElementType) : Except DescriptorError ElementNames := do
  return ⟨← c.storageType t, ← c.humanName t⟩

/-- The names of a family whose classes start with `head` and end with `parts`. -/
def WrapperNames.family (head parts storage test : String) : WrapperNames where
  publicClass := head ++ parts
  extensionClass := "_" ++ head ++ parts
  iteratorClass := "_" ++ head ++ "Iter" ++ parts
  storage := storage
  test := test

/-- The names of the wrapper of a set. -/
structure SetNames where
  wrapper : WrapperNames
  element : ElementNames
  deriving DecidableEq, Repr

/-- The names of the wrapper of the sets of `t`. -/
def SetNames.of (c : Catalog) (t : ElementType) : Except DescriptorError SetNames := do
  let parts ← c.classPart t
  let element ← ElementNames.of c t
  return {
    wrapper := .family "Set" parts ("cpp_set[" ++ element.storage ++ "]") ("test_set_" ++ t.ident)
    element }

/-- The names of the wrapper of a map. -/
structure MapNames where
  wrapper : WrapperNames
  key : ElementNames
  value : ElementNames
  deriving DecidableEq, Repr

/-- The names of the wrapper of the maps from `k` to `v`. -/
def MapNames.of (c : Catalog) (k v : ElementType) : Except DescriptorError MapNames := do
  let parts := (← c.classPart k) ++ (← c.classPart v)
  let key ← ElementNames.of c k
  let value ← ElementNames.of c v
  return {
    wrapper := .family "Map" parts ("cpp_map[" ++ key.storage ++ ", " ++ value.storage ++ "]")
      ("test_map_" ++ k.ident ++ "_" ++ v.ident)
    key
    value }

/-- The names of a pair of converter functions. -/
structure ConverterNames where
  comment : String
  /-- The function from host values to storage. -/
  toStorage : String
  /-- The function from storage to host values. -/
  toHost : String
  /-- The storage type of the container. -/
  storage : String
  deriving DecidableEq, Repr

/-- The names of the converters of the sets of `t`. -/
def ConverterNames.ofSet (c : Catalog) (t : ElementType) :
    Except DescriptorError ConverterNames := do
  let parts ← c.functionPart t
  let human ← c.humanName t
  let storage ← c.storageType (.set t)
  return ⟨human ++ " sets", "py_to_cpp_set_" ++ parts, "cpp_to_py_set_" ++ parts, storage⟩

/-- The names of the converters of the maps from `k` to `v`. -/
def ConverterNames.ofMap (c : Catalog) (k v : ElementType) :
    Except DescriptorError ConverterNames := do
  let parts := (← c.functionPart k) ++ "_" ++ (← c.functionPart v)
  let key ← c.humanName k
  let value ← c.humanName v
  let storage ← c.storageType (.map k v)
  return ⟨"<" ++ key ++ ", " ++ value ++ "> conversions", "dict_to_map_" ++ parts,
    "map_to_dict_" ++ parts, storage⟩

end WrapGen.Bundle
