import WrapGen.Batch.Basic
import WrapGen.Catalog.Builtin
import WrapGen.Destination
/-!
# Manifests

A manifest holds the requests of a batch, its settings, and where the texts go.
Relative names count from the directory that holds the manifest.
-/
namespace WrapGen

/-- A manifest. -/
structure Manifest where
  /-- The module that the generated tests import. -/
  module : String
  /-- The base of the three paths. -/
  output : String
  /-- The name of the interface, if it does not follow from the base. -/
  interface : Option String
  /-- The name of the tests, if it does not follow from the base. -/
  tests : Option String
  /-- The files with headers. -/
  headers : PerUnit (Option Path)
  insertion : Insertion
  requests : List RequestText
  /-- The directory that holds the manifest. -/
  directory : Path
  deriving DecidableEq, Repr

namespace Manifest

/-- The manifest that says nothing. -/
def empty : Manifest where
  module := defaultModule
  output := defaultModule
  interface := none
  tests := none
  headers := .const none
  insertion := .permissive
  requests := []
  directory := ⟨""⟩

/-- A name of the manifest as a path. -/
def resolve (m : Manifest) (name : String) : Path := m.directory.join ⟨name⟩

/-- The paths of the units. -/
def destinations (m : Manifest) : Destinations :=
  .ofBase (m.resolve m.output) (m.interface.map m.resolve) (m.tests.map m.resolve)

/-- The paths of the units for another base. Names of the manifest are taken as
they stand. -/
def destinationsAt (m : Manifest) (base : Path) : Destinations :=
  .ofBase base (m.interface.map Path.mk) (m.tests.map Path.mk)

/-- The batch of a manifest over the built-in catalog. -/
def batch (m : Manifest) (headers : Headers) : Batch where
  generator := ⟨Catalog.builtin, Samples.builtin, m.insertion⟩
  module := m.module
  headers := headers

end Manifest

end WrapGen
