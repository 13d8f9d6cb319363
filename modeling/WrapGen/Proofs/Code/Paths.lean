import WrapGen.Catalog.Builtin
import WrapGen.Code.Item
import Mathlib.Data.Set.Basic

/-!
# Paths through code

A path through a block is the list of what happens to names on the way: reads,
bindings, and assignments to fields. A block has a path for every choice of
branches and every number of rounds, and wherever an expression is evaluated the
path may end because the evaluation raises. So the paths that raise include all
beginnings of the others, those of loops that never end among them.

`Function.WellScoped` says what the target language wants of a function: its
declarations come first, every local name is declared once, and no path reads a
local name that has no value yet.
-/
namespace WrapGen.Code

/-! ## Events -/

/-- What happens to a name on a path. -/
inductive Event where
  | read (name : String)
  /-- A value is assigned to the name, or a loop gives it one. -/
  | bind (name : String)
  | setField (name field : String)

namespace Expr

mutual

/-- The names that stand in an expression. An operator that skips its second operand
counts as one that does not. -/
@[simp] def reads : Expr → List String
  | .hole | .scratch _ | .literal _ | .alloc _ => []
  | .name x => [x]
  | .attr e _ | .cast _ e | .deref e | .inc e | .not e | .isInstance e _ | .hasAttr e _ => e.reads
  | .call e args => e.reads ++ readsAll args
  | .index a b | .binary _ a b => a.reads ++ b.reads
  | .construct _ args | .list args => readsAll args
  | .dict pairs => readsPairs pairs
termination_by structural e => e

/-- The names in the expressions of a list. -/
@[simp] def readsAll : List Expr → List String
  | [] => []
  | e :: es => e.reads ++ readsAll es
termination_by structural es => es

/-- The names in the pairs of a list. -/
@[simp] def readsPairs : List (Expr × Expr) → List String
  | [] => []
  | (k, v) :: ps => k.reads ++ v.reads ++ readsPairs ps
termination_by structural ps => ps

end

section
variable (e : Expr) (s : String) (args : List Expr)

@[simp] theorem reads_method : (e.method s args).reads = e.reads ++ readsAll args := rfl

@[simp] theorem reads_callName : (callName s args).reads = s :: readsAll args := rfl

@[simp] theorem reads_int (n : Int) : (int n).reads = [] := rfl

@[simp] theorem reads_str : (str s).reads = [] := rfl

@[simp] theorem reads_bool (b : Bool) : (bool b).reads = [] := rfl

@[simp] theorem reads_none : Expr.none.reads = [] := rfl

end

/-- The evaluation of an expression. -/
def evaluated (e : Expr) : List Event := e.reads.map .read

/-- The assignment to a target. The field of a name is set without a read of the
name; any other target is found by evaluation. -/
def assigned : Expr → List Event
  | .name x => [.bind x]
  | .attr (.name x) field => [.setField x field]
  | target => target.evaluated

end Expr

/-! ## Paths -/

/-- How a path ends. -/
inductive Exit where
  /-- What follows is next. -/
  | normal
  | returned
  | raised
  deriving DecidableEq

/-- A set of paths, as what happens on them and how they end. -/
abbrev Paths := List Event → Exit → Prop

namespace Paths

/-- Some events, or the first of them and then a raise. -/
def run (events : List Event) : Paths := fun path exit =>
  (path = events ∧ exit = .normal) ∨ (path <+: events ∧ exit = .raised)

/-- An end without an event. -/
def leave (exit : Exit) : Paths := fun path exit' => path = [] ∧ exit' = exit

/-- The paths of `P`, and where they end normally those of `Q` after them. -/
def andThen (P Q : Paths) : Paths := fun path exit =>
  (P path exit ∧ exit ≠ .normal) ∨ ∃ a b, P a .normal ∧ Q b exit ∧ path = a ++ b

/-- The paths of either. -/
def orElse (P Q : Paths) : Paths := fun path exit => P path exit ∨ Q path exit

/-- Any number of rounds. -/
inductive repeated (P : Paths) : Paths
  | stop : repeated P [] .normal
  | leave {path : List Event} {exit : Exit} (h : P path exit) (hexit : exit ≠ .normal) :
      repeated P path exit
  | again {a b : List Event} {exit : Exit} (ha : P a .normal) (hb : repeated P b exit) :
      repeated P (a ++ b) exit

/-- The paths of `P`, and those of the handler `Q` after a raise. The exception may be
another one that is not handled. -/
def catching (P Q : Paths) : Paths := fun path exit =>
  P path exit ∨ ∃ a b, P a .raised ∧ Q b exit ∧ path = a ++ b

end Paths

namespace Stmt

mutual

/-- The paths through a statement. -/
def paths : Stmt → Paths
  | .decl _ _ | .comment _ | .blank => .run []
  | .assign target value => .run (value.evaluated ++ target.assigned)
  | .expr e | .delete e => .run e.evaluated
  | .branch arms otherwise => pathsArms (pathsOption otherwise) arms
  | .forEach targets source body =>
    (Paths.run source.evaluated).andThen
      (.repeated ((Paths.run (targets.map .bind)).andThen (pathsAll body)))
  | .loop condition body =>
    (Paths.run condition.evaluated).andThen
      (.repeated ((pathsAll body).andThen (.run condition.evaluated)))
  | .ret none => .leave .returned
  | .ret (some e) => (Paths.run e.evaluated).andThen (.leave .returned)
  | .raise e => (Paths.run e.evaluated).andThen (.leave .raised)
  | .attempt body _ handler => (pathsAll body).catching (pathsAll handler)
termination_by structural s => s

/-- The paths through a block. -/
def pathsAll : List Stmt → Paths
  | [] => .run []
  | s :: ss => s.paths.andThen (pathsAll ss)
termination_by structural ss => ss

/-- The paths through conditions and their blocks, those of `rest` if none holds. -/
def pathsArms (rest : Paths) : List (Expr × List Stmt) → Paths
  | [] => rest
  | (condition, body) :: arms =>
    (Paths.run condition.evaluated).andThen ((pathsAll body).orElse (pathsArms rest arms))
termination_by structural arms => arms

/-- The paths through a block that may be absent. -/
def pathsOption : Option (List Stmt) → Paths
  | none => .run []
  | some body => pathsAll body
termination_by structural body => body

end

/-! ## Names of a block -/

mutual

/-- A statement and all statements inside it. -/
def nested : Stmt → List Stmt
  | .branch arms otherwise => .branch arms otherwise :: (nestedArms arms ++ nestedOption otherwise)
  | .forEach targets source body => .forEach targets source body :: nestedAll body
  | .loop condition body => .loop condition body :: nestedAll body
  | .attempt body exception handler =>
    .attempt body exception handler :: (nestedAll body ++ nestedAll handler)
  | s => [s]
termination_by structural s => s

/-- All statements of a block, at every depth. -/
def nestedAll : List Stmt → List Stmt
  | [] => []
  | s :: ss => s.nested ++ nestedAll ss
termination_by structural ss => ss

/-- All statements in the blocks of conditions. -/
def nestedArms : List (Expr × List Stmt) → List Stmt
  | [] => []
  | (_, body) :: arms => nestedAll body ++ nestedArms arms
termination_by structural arms => arms

/-- All statements in a block that may be absent. -/
def nestedOption : Option (List Stmt) → List Stmt
  | none => []
  | some body => nestedAll body
termination_by structural body => body

end

/-- Whether a statement is a declaration. -/
def isDecl : Stmt → Bool
  | .decl _ _ => true
  | _ => false

/-- The names that a statement loops over. -/
def loopTargets : Stmt → List String
  | .forEach targets _ _ => targets
  | _ => []

/-- The name that a statement assigns to. -/
def assignedName : Stmt → List String
  | .assign (.name x) _ => [x]
  | _ => []

end Stmt

/-- The declaration of a name with a type. -/
structure Declaration where
  type : String
  name : String

/-- The declaration as a statement. -/
def Declaration.stmt (d : Declaration) : Stmt := .decl d.type (.name d.name)

/-! ## Scopes -/

/-- The local names of a function, and those of them that are declared as an
aggregate, which may get its value field by field. -/
structure Scope where
  locals : List String
  aggregates : List String

namespace Scope

/-- The fields of an aggregate. -/
def aggregateFields : List String := ["re", "im"]

/-- The scope of a function with some declarations and then a block: what is declared,
looped over or assigned is local. -/
def of (decls : List Declaration) (block : List Stmt) : Scope where
  locals := decls.map Declaration.name ++ (Stmt.nestedAll block).flatMap Stmt.loopTargets ++
    (Stmt.nestedAll block).flatMap Stmt.assignedName
  aggregates := (decls.filter fun d => d.type == Recipe.complexType).map Declaration.name

/-- After some events a name has a value: it was bound, or it is an aggregate of which
every field was set. -/
def HasValue (sc : Scope) (before : List Event) (x : String) : Prop :=
  .bind x ∈ before ∨ (x ∈ sc.aggregates ∧ ∀ field ∈ aggregateFields, .setField x field ∈ before)

/-- An event is allowed after others: a local name is read if it has a value, and its
fields are set if it was bound or is an aggregate. -/
def Allows (sc : Scope) (before : List Event) : Event → Prop
  | .read x => x ∈ sc.locals → sc.HasValue before x
  | .bind _ => True
  | .setField x _ => x ∈ sc.locals → .bind x ∈ before ∨ x ∈ sc.aggregates

/-- Every event of a path is allowed after those before it. -/
def Covers (sc : Scope) (before path : List Event) : Prop :=
  ∀ a e b, path = a ++ e :: b → sc.Allows (before ++ a) e

end Scope

/-- The declarations of a function come first and none is inside another statement. The
declared names are distinct, and none is a parameter or looped over. On every path
a local name has a value before it is read; parameters have theirs from the start. -/
def Function.WellScoped (f : Function) : Prop :=
  ∀ body, f.body = some body → ∃ decls block,
    body = decls.map Declaration.stmt ++ block ∧
    (∀ s ∈ Stmt.nestedAll block, s.isDecl = false) ∧
    (decls.map Declaration.name).Nodup ∧
    (∀ d ∈ decls, d.name ∉ f.params.map Param.name ∧
      ∀ s ∈ Stmt.nestedAll block, d.name ∉ s.loopTargets) ∧
    ∀ path exit, Stmt.pathsAll body path exit →
      (Scope.of decls block).Covers (f.params.map fun p => .bind p.name) path

/-- The functions of an item: a function itself or the methods of a class. -/
def Item.functions : Item → List Function
  | .comment _ => []
  | .function f => [f]
  | .classDef c => c.methods

/-- Every function of a fragment is well-scoped. -/
def Fragment.WellScoped (fragment : Fragment) : Prop :=
  ∀ item ∈ fragment, ∀ f ∈ item.functions, f.WellScoped

end WrapGen.Code
