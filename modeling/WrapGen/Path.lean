import WrapGen.Text.Fields
/-!
# Paths

A path is a text whose fields between slashes are its components. Empty fields
and fields that are a single dot say nothing, except for a leading dot. The file
name is the last component that says something, unless that is the parent; the
extension is what follows the last dot of the file name, unless that dot is its
first character. What is replaced is replaced in the text, which otherwise stays
as it was written.
-/
namespace WrapGen

/-- A path as written. -/
structure Path where
  text : String
  deriving DecidableEq, Repr

namespace Path

/-- The path of a list of characters. -/
def ofChars (cs : List Char) : Path := ⟨String.ofList cs⟩

/-- The characters of a path. -/
def chars (p : Path) : List Char := p.text.toList

instance : ToString Path := ⟨Path.text⟩

/-- Whether a path starts at the root. -/
def isAbsolute (p : Path) : Bool := p.chars.head? == some '/'

/-- Whether a field says nothing. -/
def isTrivial (field : List Char) : Bool := field == [] || field == ['.']

/-- Fields without the trivial ones at the end. -/
def trimEnd (fields : List (List Char)) : List (List Char) :=
  (fields.reverse.dropWhile isTrivial).reverse

/-- Fields joined by slashes. -/
def joinFields (fields : List (List Char)) : List Char := ['/'].intercalate fields

/-- A path as what it starts with (the root, the leading dot or nothing) and the
fields after that, without trivial ones at the end. -/
structure Parts where
  start : List Char
  body : List (List Char)

/-- The parts of a path. -/
def parts (p : Path) : Parts :=
  match Text.fields '/' p.chars with
  | [] :: first :: rest => ⟨['/'], trimEnd (first :: rest)⟩
  | ['.'] :: rest => ⟨['.'], trimEnd rest⟩
  | fields => ⟨[], trimEnd fields⟩

/-- Parts as text. -/
def Parts.chars (q : Parts) : List Char :=
  match q.start, q.body with
  | start, [] => start
  | ['.'], body => '.' :: '/' :: joinFields body
  | start, body => start ++ joinFields body

/-- The file name. -/
def fileName? (p : Path) : Option (List Char) :=
  match p.parts.body.getLast? with
  | some ['.', '.'] => none
  | last => last

/-- The path without its last component; none for the root and the empty path. -/
def parent? (p : Path) : Option Path :=
  let q := p.parts
  match q.body with
  | [] => if q.start = ['.'] then some ⟨""⟩ else none
  | body => some (ofChars (Parts.chars ⟨q.start, trimEnd body.dropLast⟩))

/-- What stands before and after the last dot of a file name. -/
def splitName (name : List Char) : List Char × Option (List Char) :=
  let back := name.reverse
  match back.dropWhile (· != '.') with
  | [] => (name, none)
  | _ :: [] => (name, none)
  | _ :: stem => (stem.reverse, some (back.takeWhile (· != '.')).reverse)

/-- The extension of the file name. -/
def extension? (p : Path) : Option (List Char) :=
  p.fileName?.bind fun name => (splitName name).2

/-- Whether the file name has the extension `ext`. -/
def hasExtension (p : Path) (ext : String) : Bool := p.extension? == some ext.toList

/-- The path up to the last dot of its file name, if that dot starts an extension. -/
def upToStem (p : Path) : Path :=
  match p.fileName? with
  | none => p
  | some name =>
    let q := p.parts
    ofChars (Parts.chars ⟨q.start, q.body.dropLast ++ [(splitName name).1]⟩)

/-- The path without its extension. As many characters as the extension has go from
the end of the text; the dot goes with what then starts an extension, so that a
name that is left as the parent keeps both of its dots. -/
def dropExtension (p : Path) : Path :=
  match p.extension? with
  | none => p
  | some ext => (ofChars (p.chars.take (p.chars.length - ext.length))).upToStem

/-- A path after another; an absolute one stands alone. -/
def join (p q : Path) : Path :=
  if q.isAbsolute then q
  else
    match p.chars.getLast? with
    | none => q
    | some '/' => ⟨p.text ++ q.text⟩
    | some _ => ⟨p.text ++ "/" ++ q.text⟩

/-- The path with another file name, for a path that has one. -/
def withFileName (p : Path) (name : List Char) : Path :=
  (p.parent?.getD p).join (ofChars name)

/-- The path with the extension added unless its file name has it. -/
def withExtension (p : Path) (ext : String) : Path :=
  if p.hasExtension ext then p else ⟨p.text ++ "." ++ ext⟩

end Path

end WrapGen
