import WrapGen.Text.Words
/-!
# Identifier stems

A stem is the part of an identifier that a name gives: its words of ASCII
letters and digits, joined by underscores, and the word `tmp` when it has none.
-/
namespace WrapGen.Text

/-- The stem of a text without words. -/
def placeholderStem : String := "tmp"

/-- The stem that a name gives. -/
def stem (name : String) : String :=
  match words (fun c => !c.isAlphanum) name.toList with
  | [] => placeholderStem
  | ws => String.ofList (['_'].intercalate ws)

end WrapGen.Text
