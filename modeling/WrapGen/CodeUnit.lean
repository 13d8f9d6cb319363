/-!
# The three units of generated code

Generated code comes in three texts: the implementation, its interface and its
tests. `PerUnit` holds something for each of them.
-/
namespace WrapGen

/-- One of the three texts. -/
inductive CodeUnit where
  | implementation
  | interface
  | tests
  deriving DecidableEq, Repr

namespace CodeUnit

/-- The units in the order in which they are written. -/
def all : List CodeUnit := [implementation, interface, tests]

/-- The name of a unit. -/
def name : CodeUnit → String
  | implementation => "implementation"
  | interface => "interface"
  | tests => "tests"

/-- The unit of a name. -/
def ofName? (s : String) : Option CodeUnit := all.find? fun u => u.name == s

end CodeUnit

/-- Something for each unit. -/
structure PerUnit (α : Type) where
  implementation : α
  interface : α
  tests : α
  deriving DecidableEq, Repr

namespace PerUnit

variable {α β : Type}

/-- What is held for a unit. -/
def get (p : PerUnit α) : CodeUnit → α
  | .implementation => p.implementation
  | .interface => p.interface
  | .tests => p.tests

/-- What a function gives for every unit. -/
def ofFn (f : CodeUnit → α) : PerUnit α :=
  ⟨f .implementation, f .interface, f .tests⟩

/-- The same for every unit. -/
def const (a : α) : PerUnit α := ⟨a, a, a⟩

@[simp] theorem get_ofFn (f : CodeUnit → α) (u : CodeUnit) : (ofFn f).get u = f u := by
  cases u <;> rfl

theorem ext_get {p q : PerUnit α} (h : ∀ u, p.get u = q.get u) : p = q := by
  cases p
  cases q
  exact congr (congr (congrArg PerUnit.mk (h .implementation)) (h .interface)) (h .tests)

end PerUnit

end WrapGen
