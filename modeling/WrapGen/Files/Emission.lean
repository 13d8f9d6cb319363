import WrapGen.Destination
import WrapGen.Files.System
/-!
# Emission

The three texts of a batch are written in the order of the units. The first file
that cannot be written ends the emission; what was written before stays.
-/
namespace WrapGen

/-- A file that cannot be written, and why. -/
structure WriteError where
  path : Path
  cause : FileError
  deriving DecidableEq, Repr

/-- The wording of a write error. -/
def WriteError.message (e : WriteError) : String :=
  "cannot write `" ++ e.path.text ++ "`: " ++ e.cause.message

namespace Destinations

variable {m : Type → Type} [Monad m] [FileSystem m]

/-- Writes the text of a unit. -/
def writeUnit (d : Destinations) (texts : PerUnit String) (u : CodeUnit) :
    ExceptT WriteError m Unit :=
  (FileSystem.writeText (d.get u) (texts.get u)).adapt (WriteError.mk (d.get u))

/-- Writes the texts of all units. -/
def write (d : Destinations) (texts : PerUnit String) : ExceptT WriteError m Unit :=
  CodeUnit.all.forM (d.writeUnit texts)

end Destinations

end WrapGen
