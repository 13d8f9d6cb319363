import WrapGen.Code.Stmt
/-!
# Conversion recipes

A recipe converts one value in three parts: declarations, which belong at the
top of the enclosing function, statements to run before, and the expression of
the result. A catalog keeps a recipe per primitive in which `hole` stands for
the value and `scratch` for temporaries; `bind` puts a value and names in.
-/
namespace WrapGen.Code

/-- How to convert one value. -/
structure Recipe where
  decls : List Stmt
  setup : List Stmt
  result : Expr

namespace Recipe

/-- A recipe that needs no statements. -/
def ofResult (result : Expr) : Recipe := ⟨[], [], result⟩

/-- What stands in place of a slot: the value for the hole, and a name that
starts with the stem for a temporary. -/
def slotValue (source : Expr) (stem : String) : Expr → Option Expr
  | .hole => some source
  | .scratch suffix => some (.name (stem ++ "_" ++ suffix))
  | _ => none

/-- The recipe for the value `source`, its temporaries named from `stem`. -/
def bind (r : Recipe) (source : Expr) (stem : String) : Recipe :=
  let f := slotValue source stem
  ⟨Stmt.replaceAll f r.decls, Stmt.replaceAll f r.setup, r.result.replace f⟩

end Recipe

end WrapGen.Code
