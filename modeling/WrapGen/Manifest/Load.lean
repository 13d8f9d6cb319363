import WrapGen.Files.System
import WrapGen.Manifest.Text
/-!
# Loading manifests

A manifest is read from its file, which also gives the directory that relative
names count from. The headers it names are read in the order of the units; the
first file that cannot be read is the error.
-/
namespace WrapGen

/-- Why a manifest, or a header it names, cannot be used. -/
inductive ManifestError where
  | unreadable (path : Path) (e : FileError)
  /-- The text of the file is no manifest. -/
  | invalid (path : Path)
  deriving DecidableEq, Repr

/-- The wording of a manifest error. -/
def ManifestError.message : ManifestError → String
  | unreadable path e => "cannot read `" ++ path.text ++ "`: " ++ e.message
  | invalid path => "invalid manifest `" ++ path.text ++ "`"

namespace Manifest

variable {m : Type → Type} [Monad m] [FileSystem m]

/-- The text of a file. -/
def readFile (p : Path) : ExceptT ManifestError m String :=
  (FileSystem.readText p).adapt (ManifestError.unreadable p)

/-- The manifest in a file. -/
def load (p : Path) : ExceptT ManifestError m Manifest := do
  let text ← readFile p
  match parse? text with
  | some manifest => return { manifest with directory := p.parent?.getD ⟨""⟩ }
  | none => throw (.invalid p)

/-- The header of a unit, if the manifest names a file for it. -/
def readHeader (manifest : Manifest) (u : CodeUnit) :
    ExceptT ManifestError m (Option String) := do
  match manifest.headers.get u with
  | none => return none
  | some p => return some (← readFile (manifest.directory.join p))

/-- The headers of a manifest. -/
def readHeaders (manifest : Manifest) : ExceptT ManifestError m Headers := do
  let implementation ← manifest.readHeader .implementation
  let interface ← manifest.readHeader .interface
  let tests ← manifest.readHeader .tests
  return ⟨implementation, interface, tests⟩

end Manifest

end WrapGen
