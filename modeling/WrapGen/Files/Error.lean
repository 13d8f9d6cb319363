/-!
# File errors

Why a file cannot be read or written. `message` is the wording of the system.
-/
namespace WrapGen

/-- Why a file cannot be read or written. -/
inductive FileError where
  | notFound
  | notDirectory
  | isDirectory
  | nameTooLong
  /-- A path with a NUL character names nothing. -/
  | nulInPath
  /-- The content of the file is no text. -/
  | notText
  /-- Any other error of the system, with its number. -/
  | system (number : Nat) (description : String)
  deriving DecidableEq, Repr

namespace FileError

/-- The error of a number, with its description for numbers without a name here. -/
def ofNumber (number : Nat) (description : String) : FileError :=
  match number with
  | 2 => notFound
  | 20 => notDirectory
  | 21 => isDirectory
  | 36 => nameTooLong
  | n => system n description

/-- The wording of an error of the system. -/
def numbered (description : String) (number : Nat) : String :=
  description ++ " (os error " ++ toString number ++ ")"

/-- The wording of an error. -/
def message : FileError → String
  | notFound => numbered "No such file or directory" 2
  | notDirectory => numbered "Not a directory" 20
  | isDirectory => numbered "Is a directory" 21
  | nameTooLong => numbered "File name too long" 36
  | nulInPath => "file name contained an unexpected NUL byte"
  | notText => "stream did not contain valid UTF-8"
  | system number description => numbered description number

end FileError

end WrapGen
