import WrapGen.Code.Expr
import WrapGen.Code.LiteralText
/-!
# The text of expressions

Expressions are written with parentheses only where an operand binds looser
than its place allows. From loose to tight: `or`, `and`, `not`, comparisons,
casts, and everything else. Comparisons take no comparison as an operand, since
the target language would chain the two.
-/
namespace WrapGen.Code

/-- How tightly an expression binds. -/
abbrev Precedence := Nat

namespace Precedence

/-- Disjunctions bind loosest. -/
def or : Precedence := 1

/-- Conjunctions. -/
def and : Precedence := 2

/-- Negations. -/
def not : Precedence := 3

/-- Comparisons. -/
def comparison : Precedence := 4

/-- Casts and allocations. -/
def cast : Precedence := 5

/-- Everything that needs no parentheses anywhere. -/
def atom : Precedence := 6

end Precedence

namespace BinaryOp

/-- The operator as written. -/
def symbol : BinaryOp → String
  | eq => "=="
  | notEq => "!="
  | lt => "<"
  | and => "and"
  | or => "or"
  | isIn => "in"
  | notIn => "not in"
  | is => "is"
  | isNot => "is not"

/-- How tightly an operator binds. -/
def precedence : BinaryOp → Precedence
  | or => Precedence.or
  | and => Precedence.and
  | _ => Precedence.comparison

/-- The loosest operand that an operator takes without parentheses. -/
def operand : BinaryOp → Precedence
  | or => Precedence.or
  | and => Precedence.and
  | _ => Precedence.comparison + 1

end BinaryOp

namespace Expr

/-- How tightly an expression binds. -/
def precedence : Expr → Precedence
  | .binary op _ _ => op.precedence
  | .not _ => Precedence.not
  | .cast _ _ => Precedence.cast
  | .alloc _ => Precedence.cast
  | _ => Precedence.atom

/-- The text of an operand, in parentheses when it binds looser than `least`. -/
def operandText (least : Precedence) (e : Expr) (text : String) : String :=
  if e.precedence < least then "(" ++ text ++ ")" else text

/-- The types of an instance test: one stands alone, others form a tuple. -/
def typesText : List String → String
  | [type] => type
  | types => "(" ++ ", ".intercalate types ++ ")"

mutual

/-- The text of an expression. -/
def text : Expr → String
  | .hole => "_"
  | .scratch s => s
  | .name n => n
  | .literal l => l.text
  | .attr e n => operandText Precedence.atom e e.text ++ "." ++ n
  | .call e args =>
    operandText Precedence.atom e e.text ++ "(" ++ ", ".intercalate (texts args) ++ ")"
  | .index e i => operandText Precedence.atom e e.text ++ "[" ++ i.text ++ "]"
  | .cast t e => "<" ++ t ++ "> " ++ operandText Precedence.cast e e.text
  | .deref e => "deref(" ++ e.text ++ ")"
  | .inc e => "inc(" ++ e.text ++ ")"
  | .binary op a b =>
    operandText op.operand a a.text ++ " " ++ op.symbol ++ " " ++ operandText op.operand b b.text
  | .not e => "not " ++ operandText Precedence.not e e.text
  | .isInstance e ts => "isinstance(" ++ e.text ++ ", " ++ typesText ts ++ ")"
  | .hasAttr e n => "hasattr(" ++ e.text ++ ", " ++ Text.quote n ++ ")"
  | .construct t args => t ++ "(" ++ ", ".intercalate (texts args) ++ ")"
  | .alloc t => "new " ++ t ++ "()"
  | .list items => bracketed (texts items)
  | .dict pairs => braced (pairTexts pairs)
termination_by structural e => e

/-- The texts of the expressions of a list. -/
def texts : List Expr → List String
  | [] => []
  | e :: es => e.text :: texts es
termination_by structural es => es

/-- The texts of the entries of a dict. -/
def pairTexts : List (Expr × Expr) → List String
  | [] => []
  | (k, v) :: ps => (k.text ++ ": " ++ v.text) :: pairTexts ps
termination_by structural ps => ps

end

end Expr

end WrapGen.Code
