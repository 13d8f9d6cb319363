import WrapGen.Bundle.Basic
/-!
# Converter functions

The bundle of a pair of free functions between a host container and storage. It
has no tests.
-/
namespace WrapGen

open Code

namespace Bundle

/-- A storage-level function that runs a recipe on its parameter. -/
def converter (returns name : String) (param : Param) (r : Recipe) : Function :=
  .storageLevel returns name [param] (r.decls ++ r.setup ++ [.give r.result])

/-- The bundle of two converters. -/
def ofConverters (comment : String) (toStorage toHost : Function) : Bundle where
  implementation := [.comment comment, .function toStorage, .function toHost]
  interface := [.comment comment, .function toStorage.declaration, .function toHost.declaration]
  tests := []

end Bundle

namespace Generator

open WrapGen.Bundle

/-- The converters between host containers of the kind `kind` and the storage
container `type`. -/
def converters (g : Generator) (names : ConverterNames) (type : ElementType)
    (kind : HostKind) (hostParam storageParam : String) : Except DescriptorError Bundle := do
  let inward ← g.catalog.toStorage (.name hostParam) type
  let outward ← g.catalog.toHost (.name storageParam) type
  return ofConverters names.comment
    (converter names.storage names.toStorage (.typed kind.name hostParam) inward)
    (converter kind.name names.toHost (.typed names.storage storageParam) outward)

/-- The converters of the sets of `element`. -/
def setConverters (g : Generator) (element : ElementType) : Except DescriptorError Bundle := do
  let element ← element.asKey
  let names ← ConverterNames.ofSet g.catalog element
  g.converters names (.set element) .set "pyset" "cppset"

/-- The converters of the maps from `key` to `value`. -/
def mapConverters (g : Generator) (key value : ElementType) : Except DescriptorError Bundle := do
  let key ← key.asKey
  let names ← ConverterNames.ofMap g.catalog key value
  g.converters names (.map key value) .dict "pydict" "cppmap"

end Generator

end WrapGen
