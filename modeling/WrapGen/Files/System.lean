import WrapGen.Files.Error
import WrapGen.Path
/-!
# File systems

What a command needs of its surroundings: to read a file whole and to write a
file whole, by path. Commands are written over any monad that offers the two, so
that they run on the files of the machine and on a `FileTree` alike.
-/
namespace WrapGen

/-- A monad with files. -/
class FileSystem (m : Type → Type) where
  /-- The content of a file. -/
  read : Path → m (Except FileError ByteArray)
  /-- Puts a text into a file, in place of what it held. -/
  write : Path → String → m (Except FileError Unit)

namespace FileSystem

variable {m : Type → Type} [Monad m] [FileSystem m]

/-- The content of a file as text. -/
def readText (p : Path) : ExceptT FileError m String := do
  let bytes ← ExceptT.mk (read p)
  match String.fromUTF8? bytes with
  | some text => return text
  | none => throw .notText

/-- Puts a text into a file, in place of what it held. -/
def writeText (p : Path) (text : String) : ExceptT FileError m Unit :=
  ExceptT.mk (write p text)

end FileSystem

end WrapGen
