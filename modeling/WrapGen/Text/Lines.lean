/-!
# Lines

Lines of generated text: blank, or content at a nesting level. Four spaces
stand for a level, and blank lines carry none. `splitLines` cuts a text into
its lines.
-/
namespace WrapGen.Text

/-- A line of generated text. -/
inductive Line where
  | blank
  | content (level : Nat) (text : String)
  deriving DecidableEq, Repr

namespace Line

/-- Spaces for each nesting level. -/
def indentWidth : Nat := 4

/-- A line with its line end. -/
def text : Line → String
  | blank => "\n"
  | content level t => String.ofList (List.replicate (level * indentWidth) ' ') ++ t ++ "\n"

/-- The text of a list of lines. -/
def textAll (lines : List Line) : String := String.join (lines.map text)

end Line

/-- The lines of a text. A line ends at a line feed, which takes a carriage
return just before it along; what follows the last one is a line unless it is
empty. -/
def splitLines : List Char → List (List Char)
  | [] => []
  | '\n' :: cs => [] :: splitLines cs
  | '\r' :: '\n' :: cs => [] :: splitLines cs
  | c :: cs =>
    match splitLines cs with
    | [] => [[c]]
    | line :: lines => (c :: line) :: lines

end WrapGen.Text
