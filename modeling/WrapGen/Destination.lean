import WrapGen.CodeUnit
import WrapGen.Path
/-!
# Where units are written

The three paths follow from a base path. The interface and the tests may have
paths of their own; otherwise the interface takes the base and the tests the
base with `test_` in front of its file name. Every path gets the extension of its
unit unless it has it.
-/
namespace WrapGen

/-- The paths of the units. -/
abbrev Destinations := PerUnit Path

namespace Destinations

/-- The extension of a unit. -/
def extension : CodeUnit → String
  | .implementation => "pyx"
  | .interface => "pxd"
  | .tests => "py"

/-- The base with `test_` in front of its file name, or of itself. -/
def testName (base : Path) : Path :=
  match base.fileName? with
  | some name => base.withFileName ("test_".toList ++ name)
  | none => ⟨"test_" ++ base.text⟩

/-- The base without the extension of the implementation. -/
def strip (base : Path) : Path :=
  if base.hasExtension (extension .implementation) then base.dropExtension else base

/-- The paths that follow from a base. -/
def ofBase (base : Path) (interface tests : Option Path) : Destinations :=
  let base := strip base
  { implementation := base.withExtension (extension .implementation)
    interface := (interface.getD base).withExtension (extension .interface)
    tests := (tests.getD (testName base)).withExtension (extension .tests) }

end Destinations

end WrapGen
