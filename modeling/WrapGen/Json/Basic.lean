import WrapGen.Text.Quoted
/-!
# JSON values

JSON values, with the members of an object in the order they are written and
numbers as they are written. `write` gives the shortest text of a value: strings
escape quotes, backslashes and the control characters below the space, and
nothing else.
-/
namespace WrapGen

/-- A JSON value. -/
inductive Json where
  | null
  | bool (b : Bool)
  | number (text : List Char)
  | string (s : String)
  | array (items : List Json)
  | object (members : List (String × Json))

namespace Json

/-- A character inside a JSON string. -/
def escape (c : Char) : List Char :=
  match c with
  | '"' => ['\\', '"']
  | '\\' => ['\\', '\\']
  | '\n' => ['\\', 'n']
  | '\r' => ['\\', 'r']
  | '\t' => ['\\', 't']
  | '\x08' => ['\\', 'b']
  | '\x0c' => ['\\', 'f']
  | c => if c.toNat < 0x20 then ['\\', 'u', '0', '0'] ++ Text.hexPair c.toNat else [c]

/-- A JSON string. -/
def quote (s : String) : List Char := '"' :: (s.toList.flatMap escape ++ ['"'])

mutual

/-- The text of a value. -/
def write : Json → List Char
  | .null => "null".toList
  | .bool true => "true".toList
  | .bool false => "false".toList
  | .number text => text
  | .string s => quote s
  | .array items => '[' :: ([','].intercalate (writeItems items) ++ [']'])
  | .object members => '{' :: ([','].intercalate (writeMembers members) ++ ['}'])
termination_by structural j => j

/-- The texts of the items of an array. -/
def writeItems : List Json → List (List Char)
  | [] => []
  | j :: js => j.write :: writeItems js
termination_by structural js => js

/-- The texts of the members of an object. -/
def writeMembers : List (String × Json) → List (List Char)
  | [] => []
  | (name, j) :: ms => (quote name ++ ':' :: j.write) :: writeMembers ms
termination_by structural ms => ms

end

end Json

end WrapGen
