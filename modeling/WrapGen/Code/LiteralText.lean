import WrapGen.Text.Quoted
import WrapGen.Decimal.Layout
import WrapGen.Code.Literal
/-!
# The text of literals

Literals are written as the target language reads them. Floats have the fewest
digits that read back; NaN and the infinities are calls, as they have no
numerals. A complex number with the real part zero is its imaginary part alone.
-/
namespace WrapGen.Code

open Binary Decimal

/-- A float in code. -/
def floatText (x : Double) : String :=
  if x.isNaN then "float(\"nan\")"
  else if x.isInfinite then if x.isNegative then "float(\"-inf\")" else "float(\"inf\")"
  else Layout.standard.text x

/-- A complex number in code. -/
def complexText (re im : Double) : String :=
  if re = Word.zero then floatText im ++ "j"
  else
    "(" ++ floatText re ++ (if im.isNegative then "-" else "+") ++ floatText im.abs ++ "j)"

/-- Texts between braces, separated by a comma and a space. -/
def braced (texts : List String) : String :=
  "\x7b" ++ ", ".intercalate texts ++ "\x7d"

/-- Texts between brackets, separated by a comma and a space. -/
def bracketed (texts : List String) : String :=
  "[" ++ ", ".intercalate texts ++ "]"

namespace Literal

mutual

/-- The text of a literal. -/
def text : Literal → String
  | .none => "None"
  | .bool true => "True"
  | .bool false => "False"
  | .int n => toString n
  | .float x => floatText x
  | .complex re im => complexText re im
  | .str s => Text.quote s
  | .list items => bracketed (texts items)
  | .set [] => "set()"
  | .set (item :: items) => braced (texts (item :: items))
  | .dict pairs => braced (pairTexts pairs)
termination_by structural l => l

/-- The texts of the literals of a list. -/
def texts : List Literal → List String
  | [] => []
  | l :: ls => l.text :: texts ls
termination_by structural ls => ls

/-- The texts of the entries of a dict. -/
def pairTexts : List (Literal × Literal) → List String
  | [] => []
  | (k, v) :: ps => (k.text ++ ": " ++ v.text) :: pairTexts ps
termination_by structural ps => ps

end

end Literal

end WrapGen.Code
