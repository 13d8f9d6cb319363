import WrapGen.Text.Blank
/-!
# Quoted text

Two ways to quote. In code a text stands between double quotes on one line:
quotes, backslashes and line ends are escaped, and every other control
character is written with two hexadecimal digits. For display a host value
stands between single quotes, and only quotes and backslashes are escaped.
-/
namespace WrapGen.Text

/-- The two lower-case hexadecimal digits of a number below 256. -/
def hexPair (n : Nat) : List Char :=
  [Nat.digitChar (n / 16 % 16), Nat.digitChar (n % 16)]

/-- A character inside double quotes. -/
def escape (c : Char) : List Char :=
  match c with
  | '"' => ['\\', '"']
  | '\\' => ['\\', '\\']
  | '\n' => ['\\', 'n']
  | '\r' => ['\\', 'r']
  | '\t' => ['\\', 't']
  | c => if isControl c then '\\' :: 'x' :: hexPair c.toNat else [c]

/-- A text between double quotes. -/
def quoteChars (cs : List Char) : List Char :=
  '"' :: (cs.flatMap escape ++ ['"'])

/-- A text between double quotes. -/
def quote (s : String) : String := String.ofList (quoteChars s.toList)

/-- A character inside single quotes. -/
def escapeForDisplay (c : Char) : List Char :=
  if c = '\\' ∨ c = '\'' then ['\\', c] else [c]

/-- A text between single quotes. -/
def quoteForDisplay (s : String) : String :=
  String.ofList ('\'' :: (s.toList.flatMap escapeForDisplay ++ ['\'']))

end WrapGen.Text
