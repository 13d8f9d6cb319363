import WrapGen.Catalog.Listing
import WrapGen.Command.Outcome
import WrapGen.Files.Emission
import WrapGen.Manifest.Load
/-!
# Running commands

Generation loads the manifest, reads its headers, makes the three texts and
only then writes files, so that a fault in any request leaves every file as it
was. Printing takes the same way to the text of one unit and writes none.
-/
namespace WrapGen

/-- Why a command that was understood fails. -/
inductive CommandError where
  | manifest (e : ManifestError)
  | request (e : RequestError)
  | write (e : WriteError)
  deriving DecidableEq, Repr

/-- The wording of a command error. -/
def CommandError.message : CommandError → String
  | manifest e => e.message
  | request e => e.message
  | write e => e.message

namespace Manifest

variable {m : Type → Type} [Monad m] [FileSystem m]

/-- The batch of a manifest with the headers it names. -/
def loadBatch (manifest : Manifest) : ExceptT CommandError m Batch := do
  return manifest.batch (← manifest.readHeaders.adapt .manifest)

/-- The texts of a manifest. -/
def texts (manifest : Manifest) : ExceptT CommandError m (PerUnit String) := do
  let batch ← manifest.loadBatch
  ExceptT.mk (pure ((batch.generate manifest.requests).mapError .request))

/-- The text of one unit of a manifest. -/
def unitText (manifest : Manifest) (u : CodeUnit) : ExceptT CommandError m String := do
  let batch ← manifest.loadBatch
  ExceptT.mk (pure ((batch.generateUnit manifest.requests u).mapError .request))

end Manifest

namespace Command

variable {m : Type → Type} [Monad m] [FileSystem m]

/-- The manifest in a file, with the options of a command applied. -/
def loadManifest (path : String) (o : GenerateOptions) : ExceptT CommandError m Manifest := do
  let manifest ← (Manifest.load ⟨path⟩).adapt .manifest
  return if o.strict then { manifest with insertion := .strict } else manifest

/-- The paths that a manifest is written to. -/
def destinations (manifest : Manifest) (o : GenerateOptions) : Destinations :=
  match o.base with
  | some base => manifest.destinationsAt ⟨base⟩
  | none => manifest.destinations

/-- Generates the files of a manifest and gives their paths. -/
def generateFiles (path : String) (o : GenerateOptions) : ExceptT CommandError m Destinations := do
  let manifest ← loadManifest path o
  let texts ← manifest.texts
  let places := destinations manifest o
  (places.write texts).adapt .write
  return places

/-- The text of one unit of the manifest in a file. -/
def printUnit (path : String) (u : CodeUnit) : ExceptT CommandError m String := do
  let manifest ← loadManifest path .none
  manifest.unitText u

/-- The report of the files that were written. -/
def writtenText (places : Destinations) : String :=
  String.join (CodeUnit.all.map fun u => "wrote " ++ (places.get u).text ++ "\n")

/-- The outcome of a run that may fail. -/
def conclude (run : ExceptT CommandError m String) : m Outcome := do
  match ← run.run with
  | .ok output => return .success output
  | .error e => return .error e.message

/-- Runs a command. -/
def run : Command → m Outcome
  | .help => pure (.success helpText)
  | .version => pure (.success versionText)
  | .types =>
    pure <| match Catalog.builtin.listing with
      | .ok table => .success table
      | .error e => .error e.message
  | .generate path o => conclude (writtenText <$> generateFiles path o)
  | .print path u => conclude (printUnit path u)

/-- Runs the command that arguments ask for. -/
def runArguments (arguments : List String) : m Outcome :=
  match ofArguments arguments with
  | .ok command => command.run
  | .error e => pure e.outcome

end Command

end WrapGen
