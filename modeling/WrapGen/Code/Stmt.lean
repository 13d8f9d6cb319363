import WrapGen.Code.Expr
/-!
# Statements

The statements of generated code. Typed declarations are statements of their
own, apart from those that give a value: the target language wants all of them
at the top of a function.
-/
namespace WrapGen.Code

/-- A statement. -/
inductive Stmt where
  /-- The declaration of a storage type for a name. -/
  | decl (type : String) (target : Expr)
  | assign (target value : Expr)
  | expr (e : Expr)
  /-- Conditions with their blocks, tried in order, and the block for none of them. -/
  | branch (arms : List (Expr × List Stmt)) (otherwise : Option (List Stmt))
  | forEach (targets : List String) (source : Expr) (body : List Stmt)
  | loop (condition : Expr) (body : List Stmt)
  | ret (value : Option Expr)
  | raise (e : Expr)
  /-- A block, and the block to run when it raises the exception. -/
  | attempt (body : List Stmt) (exception : String) (handler : List Stmt)
  | delete (e : Expr)
  | comment (text : String)
  | blank

namespace Stmt

/-- A condition with one block. -/
def when (condition : Expr) (body : List Stmt) : Stmt :=
  .branch [(condition, body)] none

/-- A condition with a block for each outcome. -/
def ifElse (condition : Expr) (body otherwise : List Stmt) : Stmt :=
  .branch [(condition, body)] (some otherwise)

/-- The return of a value. -/
def give (value : Expr) : Stmt := .ret (some value)

/-- The call of a function for its effect. -/
def call (function : String) (args : List Expr) : Stmt :=
  .expr (.callName function args)

mutual

/-- `Expr.replace` on every expression of a statement. -/
def replace (f : Expr → Option Expr) : Stmt → Stmt
  | .decl t e => .decl t (e.replace f)
  | .assign t v => .assign (t.replace f) (v.replace f)
  | .expr e => .expr (e.replace f)
  | .branch arms otherwise => .branch (replaceArms f arms) (replaceOption f otherwise)
  | .forEach ts e body => .forEach ts (e.replace f) (replaceAll f body)
  | .loop c body => .loop (c.replace f) (replaceAll f body)
  | .ret v => .ret (v.map (Expr.replace f))
  | .raise e => .raise (e.replace f)
  | .attempt body x handler => .attempt (replaceAll f body) x (replaceAll f handler)
  | .delete e => .delete (e.replace f)
  | .comment t => .comment t
  | .blank => .blank
termination_by structural s => s

/-- `replace` on every statement of a block. -/
def replaceAll (f : Expr → Option Expr) : List Stmt → List Stmt
  | [] => []
  | s :: ss => s.replace f :: replaceAll f ss
termination_by structural ss => ss

/-- `replace` on conditions and their blocks. -/
def replaceArms (f : Expr → Option Expr) : List (Expr × List Stmt) → List (Expr × List Stmt)
  | [] => []
  | (c, body) :: arms => (c.replace f, replaceAll f body) :: replaceArms f arms
termination_by structural arms => arms

/-- `replace` on a block that may be absent. -/
def replaceOption (f : Expr → Option Expr) : Option (List Stmt) → Option (List Stmt)
  | none => none
  | some body => some (replaceAll f body)
termination_by structural body => body

end

end Stmt

end WrapGen.Code
