import WrapGen.Command.Basic
/-!
# Outcomes of commands

What a command leaves behind: the text on its output, the text on its diagnostic
output, and a status, which is zero for success. The usage texts stand here too.
-/
namespace WrapGen

/-- What a command leaves behind beside files. -/
structure Outcome where
  output : String
  diagnostics : String
  status : UInt8
  deriving DecidableEq, Repr

namespace Outcome

/-- A success with a text. -/
def success (output : String) : Outcome := ⟨output, "", 0⟩

/-- A failure with a text on the diagnostic output. -/
def failure (diagnostics : String) : Outcome := ⟨"", diagnostics, 1⟩

/-- The failure of a command that was understood. -/
def error (message : String) : Outcome := failure ("error: " ++ message ++ "\n")

end Outcome

namespace Command

/-- The general help. -/
def helpText : String :=
  "stlwrap - Cython wrappers for C++ containers

Usage: stlwrap <command> [options]

Commands:
  gen <manifest.json>            Write implementation, interface and tests
  print <manifest.json> <unit>   Print one unit (implementation, interface, tests)
  types                          List registered element types
  help                           Show this help message
  version                        Show version information

Gen options:
  -o <base>     Artifact base name (default: from manifest)
  --strict      Type-check values on insertion

Set RUST_LOG=debug to trace generation.
"

/-- The version. -/
def versionText : String := "stlwrap 0.1.0\n"

/-- The help for the generation of files. -/
def generateUsage : String :=
  "Usage: stlwrap gen <manifest.json> [options]

Options:
  -o <base>     Artifact base name (default: from manifest)
  --strict      Type-check values on insertion
"

/-- The help for the printing of a unit. -/
def printUsage : String :=
  "Usage: stlwrap print <manifest.json> <implementation|interface|tests>\n"

end Command

/-- What arguments that are no command lead to. -/
def UsageError.outcome : UsageError → Outcome
  | unknownCommand name => ⟨Command.helpText, "Unknown command: " ++ name ++ "\n\n", 1⟩
  | generateNeedsManifest => .failure Command.generateUsage
  | printNeedsManifestAndUnit => .failure Command.printUsage
  | unknownOption text => .error ("unknown option `" ++ text ++ "`")
  | unknownUnit name =>
    .error ("unknown unit `" ++ name ++ "` (expected implementation, interface or tests)")

end WrapGen
