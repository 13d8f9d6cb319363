import WrapGen.CodeUnit
/-!
# Commands

The commands of the command line, and how arguments are read as one. Arguments
are read before any file is touched.
-/
namespace WrapGen

/-- What the generation of files may be told beside the manifest. -/
structure GenerateOptions where
  /-- The base of the three paths, in place of that of the manifest. -/
  base : Option String
  /-- Insertion checks kinds, whatever the manifest says. -/
  strict : Bool
  deriving DecidableEq, Repr

/-- A command. -/
inductive Command where
  | help
  | version
  | types
  | generate (manifest : String) (options : GenerateOptions)
  | print (manifest : String) (unit : CodeUnit)
  deriving DecidableEq, Repr

/-- Why arguments are no command. -/
inductive UsageError where
  | unknownCommand (name : String)
  | generateNeedsManifest
  | printNeedsManifestAndUnit
  | unknownOption (text : String)
  | unknownUnit (name : String)
  deriving DecidableEq, Repr

namespace GenerateOptions

/-- No option. -/
def none : GenerateOptions := ⟨.none, false⟩

/-- The options that arguments give; of several bases the last counts. -/
def ofArguments (o : GenerateOptions) : List String → Except UsageError GenerateOptions
  | [] => .ok o
  | "-o" :: base :: rest => ofArguments { o with base := some base } rest
  | "--strict" :: rest => ofArguments { o with strict := true } rest
  | other :: _ => .error (.unknownOption other)

end GenerateOptions

namespace Command

/-- The generation of files that arguments ask for. -/
def generateOfArguments : List String → Except UsageError Command
  | [] => .error .generateNeedsManifest
  | manifest :: options => (GenerateOptions.none.ofArguments options).map (.generate manifest)

/-- The printing of a unit that arguments ask for. -/
def printOfArguments : List String → Except UsageError Command
  | manifest :: unit :: _ =>
    match CodeUnit.ofName? unit with
    | some u => .ok (.print manifest u)
    | none => .error (.unknownUnit unit)
  | _ => .error .printNeedsManifestAndUnit

/-- The command that arguments ask for; no argument asks for help. -/
def ofArguments : List String → Except UsageError Command
  | [] => .ok .help
  | "gen" :: rest => generateOfArguments rest
  | "print" :: rest => printOfArguments rest
  | "types" :: _ => .ok .types
  | "help" :: _ | "--help" :: _ | "-h" :: _ => .ok .help
  | "version" :: _ | "--version" :: _ | "-V" :: _ => .ok .version
  | name :: _ => .error (.unknownCommand name)

end Command

end WrapGen
