import WrapGen.Command.Run
/-!
# The program

Runs the command of the arguments on the files of the machine.
-/
namespace WrapGen

/-- The number of an error, which some operations give negated. -/
def errorNumber (number : UInt32) : Nat :=
  if number.toNat < 2147483648 then number.toNat else 4294967296 - number.toNat

/-- The error of a file operation of the machine. -/
def FileError.ofMachine : IO.Error → FileError
  | .noFileOrDirectory _ number text => .ofNumber (errorNumber number) text
  | .inappropriateType _ number text => .ofNumber (errorNumber number) text
  | .permissionDenied _ number text => .ofNumber (errorNumber number) text
  | .resourceExhausted _ number text => .ofNumber (errorNumber number) text
  | .invalidArgument _ number text => .ofNumber (errorNumber number) text
  | .otherError number text => .ofNumber (errorNumber number) text
  | e => .system 0 (toString e)

/-- The result of a file operation of the machine. -/
def attempt {α : Type} (action : IO α) : IO (Except FileError α) := do
  match ← action.toBaseIO with
  | .ok a => return .ok a
  | .error e => return .error (.ofMachine e)

/-- The files of the machine. -/
instance : FileSystem IO where
  read p := attempt (IO.FS.readBinFile p.text)
  write p text := attempt (IO.FS.writeFile p.text text)

end WrapGen

open WrapGen in
/-- Runs the command of the arguments. -/
def main (arguments : List String) : IO UInt32 := do
  let outcome ← (Command.runArguments arguments : IO Outcome)
  (← IO.getStdout).putStr outcome.output
  (← IO.getStderr).putStr outcome.diagnostics
  return outcome.status.toUInt32
