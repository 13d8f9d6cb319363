import WrapGen.Catalog.Basic
/-!
# Spellings

A spelling writes element types as text: it takes the text of a primitive from
its entry and puts the texts of composites together. Names for people, parts of
class and function names, and storage types are four spellings; each fails at
the first primitive without an entry, from left to right.
-/
namespace WrapGen

/-- How types are written. -/
structure Spelling where
  primitive : Entry → String
  vector : String → String
  set : String → String
  map : String → String → String

namespace Spelling

/-- Names for people. -/
def human : Spelling where
  primitive := Entry.humanName
  vector := fun e => "vector [" ++ e ++ "]"
  set := fun e => "set [" ++ e ++ "]"
  map := fun k v => "map [" ++ k ++ ", " ++ v ++ "]"

/-- Parts of class names. -/
def classPart : Spelling where
  primitive := Entry.classPart
  vector := fun e => "Vector" ++ e
  set := fun e => "Set" ++ e
  map := fun k v => "Map" ++ k ++ v

/-- Parts of function names. -/
def functionPart : Spelling where
  primitive := Entry.functionPart
  vector := fun e => "vector_" ++ e
  set := fun e => "set_" ++ e
  map := fun k v => "map_" ++ k ++ "_" ++ v

/-- Storage types. -/
def storage : Spelling where
  primitive := Entry.storageType
  vector := fun e => "cpp_vector[" ++ e ++ "]"
  set := fun e => "cpp_set[" ++ e ++ "]"
  map := fun k v => "cpp_map[" ++ k ++ ", " ++ v ++ "]"

end Spelling

namespace Catalog

/-- A type in a spelling. -/
def spell (c : Catalog) (s : Spelling) : ElementType → Except DescriptorError String
  | .primitive p => do return s.primitive (← c.entry p)
  | .vector e => do return s.vector (← c.spell s e)
  | .set e => do return s.set (← c.spell s e)
  | .map k v => do return s.map (← c.spell s k) (← c.spell s v)

/-- The name of a type for people. -/
def humanName (c : Catalog) (t : ElementType) : Except DescriptorError String := c.spell .human t

/-- The part of class names that a type gives. -/
def classPart (c : Catalog) (t : ElementType) : Except DescriptorError String :=
  c.spell .classPart t

/-- The part of function names that a type gives. -/
def functionPart (c : Catalog) (t : ElementType) : Except DescriptorError String :=
  c.spell .functionPart t

/-- The storage type of a type. -/
def storageType (c : Catalog) (t : ElementType) : Except DescriptorError String :=
  c.spell .storage t

end Catalog

end WrapGen
