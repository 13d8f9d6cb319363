import WrapGen.Text.Blank
import WrapGen.Descriptor.Error
/-!
# Reading descriptors

A text is cut at its delimiters `<`, `,` and `>`; blanks count only inside the
runs between them, where they separate words. The runs are read in one pass
with a stack of the applications that are still open, so the reader needs no
position and no look-ahead.
-/
namespace WrapGen

namespace Descriptor

/-- The characters that end a name. -/
inductive Delimiter where
  | opening
  | comma
  | closing
  deriving DecidableEq, Repr

/-- The delimiter that a character is, if it is one. -/
def Delimiter.ofChar? : Char → Option Delimiter
  | '<' => some .opening
  | ',' => some .comma
  | '>' => some .closing
  | _ => none

/-- A text cut at its delimiters: the run before the first one, and every
delimiter with the run after it. -/
def segments : List Char → List Char × List (Delimiter × List Char)
  | [] => ([], [])
  | c :: cs =>
    let (run, rest) := segments cs
    match Delimiter.ofChar? c with
    | some d => ([], (d, run) :: rest)
    | none => (c :: run, rest)

/-- The name in a run: its words, with one space between two of them. -/
def nameOf (run : List Char) : Except Malformation String :=
  match Text.squeeze run with
  | [] => .error .expectedName
  | name => .ok (String.ofList name)

/-- The applications still open, innermost first, each with its head and the
arguments read so far, latest first. -/
abbrev OpenHeads := List (String × List Descriptor)

/-- What was read last. -/
inductive Latest where
  /-- A name, which a `<` may turn into a head. -/
  | name (text : String)
  /-- A whole application. -/
  | closed (descriptor : Descriptor)

/-- What was read last, as a descriptor of its own. -/
def Latest.descriptor : Latest → Descriptor
  | name text => .token text
  | closed d => d

/-- The error for anything that follows a whole application. -/
def unexpected (stack : OpenHeads) : Malformation :=
  if stack.isEmpty then .trailingInput else .expectedSeparator

/-- Reads what follows `latest` inside the applications of `stack`. -/
def readAfter (stack : OpenHeads) (latest : Latest) :
    List (Delimiter × List Char) → Except Malformation Descriptor
  | [] => if stack.isEmpty then .ok latest.descriptor else .error .expectedSeparator
  | (.opening, run) :: rest =>
    match latest with
    | .closed _ => .error (unexpected stack)
    | .name head =>
      if stack.length = maxNesting then .error .tooDeep
      else
        match nameOf run with
        | .error e => .error e
        | .ok name => readAfter ((head, []) :: stack) (.name name) rest
  | (.comma, run) :: rest =>
    match stack with
    | [] => .error .trailingInput
    | (head, args) :: outer =>
      match nameOf run with
      | .error e => .error e
      | .ok name => readAfter ((head, latest.descriptor :: args) :: outer) (.name name) rest
  | (.closing, run) :: rest =>
    match stack with
    | [] => .error .trailingInput
    | (head, args) :: outer =>
      if run.all Text.isBlank then
        readAfter outer (.closed (.applied head (latest.descriptor :: args).reverse)) rest
      else .error (unexpected outer)

/-- Reads a whole text. -/
def readChars (cs : List Char) : Except Malformation Descriptor :=
  match nameOf (segments cs).1 with
  | .error e => .error e
  | .ok name => readAfter [] (.name name) (segments cs).2

/-- The descriptor that a text writes. -/
def parse (text : String) : Except DescriptorError Descriptor :=
  match readChars text.toList with
  | .error reason => .error (.malformed text reason)
  | .ok d => .ok d

end Descriptor

end WrapGen
