import WrapGen.Text.Words
/-!
# Blanks

The Unicode characters with the property White_Space, the control characters,
and `squeeze`, which keeps the words of a text and puts one space between two
of them.

Main statement: `isBlank_of_isWhitespace`, core's ASCII white space is blank.
-/
namespace WrapGen.Text

/-- Closed ranges of the code points with the property White_Space, ascending. -/
def blankRanges : List (Nat × Nat) :=
  [(0x09, 0x0D), (0x20, 0x20), (0x85, 0x85), (0xA0, 0xA0), (0x1680, 0x1680), (0x2000, 0x200A),
   (0x2028, 0x2029), (0x202F, 0x202F), (0x205F, 0x205F), (0x3000, 0x3000)]

/-- Whether a character is white space. -/
def isBlank (c : Char) : Bool :=
  blankRanges.any fun r => r.1 ≤ c.toNat && c.toNat ≤ r.2

/-- Whether a character is a control character: one of the two blocks of them,
or the delete character in front of the second. -/
def isControl (c : Char) : Bool :=
  c.toNat < 0x20 || (0x7F ≤ c.toNat && c.toNat < 0xA0)

/-- The words of a text with one space between two of them. -/
def squeeze (cs : List Char) : List Char :=
  [' '].intercalate (words isBlank cs)

theorem isBlank_of_isWhitespace (c : Char) (h : c.isWhitespace = true) : isBlank c = true := by
  simp only [Char.isWhitespace, Bool.or_eq_true, decide_eq_true_eq] at h
  rcases h with ((rfl | rfl) | rfl) | rfl <;> decide

end WrapGen.Text
