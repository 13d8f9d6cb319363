import WrapGen.Descriptor.Error
import WrapGen.Code.Recipe
/-!
# Catalogs of element types

A catalog says which tokens name which primitive, which heads name which
container, and what is known about each primitive: its names, its storage type,
the host kinds it accepts and the two recipes that convert it. Tokens are
compared exactly. A token that is registered again names the new primitive; a
primitive that is registered again gets the new entry and keeps its tokens.
-/
namespace WrapGen

open Code

/-- What a catalog knows about one primitive. -/
structure Entry where
  /-- The name in messages and doc texts. -/
  humanName : String
  /-- The part of class names. -/
  classPart : String
  /-- The part of function names. -/
  functionPart : String
  storageType : String
  /-- The host kinds that may be converted. -/
  accepts : List HostKind
  toStorage : Recipe
  toHost : Recipe

/-- A catalog; of several pairs with one key the first counts. -/
structure Catalog where
  tokens : List (String × Primitive)
  heads : List (String × Container)
  entries : List (Primitive × Entry)

namespace Catalog

/-- The catalog that knows nothing. -/
def empty : Catalog := ⟨[], [], []⟩

/-- The catalog that knows the heads of the containers. -/
def containers : Catalog where
  tokens := []
  heads :=
    [("vector", .vector), ("std::vector", .vector), ("vec", .vector),
     ("set", .set), ("std::set", .set),
     ("map", .map), ("std::map", .map), ("dict", .map)]
  entries := []

/-- The catalog with a primitive added under its own token and further ones. -/
def register (c : Catalog) (p : Primitive) (aliases : List String) (e : Entry) : Catalog :=
  { c with
    tokens := (p.token :: aliases).reverse.map (·, p) ++ c.tokens
    entries := (p, e) :: c.entries }

/-- The primitive that a token names. -/
def primitive? (c : Catalog) (token : String) : Option Primitive := c.tokens.lookup token

/-- The container that a head names. -/
def container? (c : Catalog) (head : String) : Option Container := c.heads.lookup head

/-- The entry of a primitive. -/
def entry (c : Catalog) (p : Primitive) : Except DescriptorError Entry :=
  match c.entries.lookup p with
  | some e => .ok e
  | none => .error (.unknownType p.token)

/-- The primitives with an entry, in catalog order. -/
def primitives (c : Catalog) : List (Primitive × Entry) :=
  Primitive.all.filterMap fun p => (c.entries.lookup p).map (p, ·)

/-- The host kinds that may be converted to a type. -/
def accepts (c : Catalog) : ElementType → Except DescriptorError (List HostKind)
  | .primitive p => (c.entry p).map Entry.accepts
  | .vector _ => .ok [.list, .tuple, .ndarray]
  | .set _ => .ok [.set, .frozenset]
  | .map _ _ => .ok [.dict]

end Catalog

end WrapGen
