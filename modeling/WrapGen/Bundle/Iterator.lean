import WrapGen.Bundle.Basic
/-!
# Iterator classes

An iterator holds the positions of the start and of the end of the container,
allocated on the heap, and the wrapper that made it. When the positions meet,
every further step raises the end of the iteration.
-/
namespace WrapGen.Bundle

open Code

/-- What an iterator class is made from. -/
structure IteratorPlan where
  /-- The name of the class. -/
  name : String
  /-- The storage type of the container. -/
  storage : String
  /-- The name of the pointer to the container. -/
  pointer : String
  /-- The type of the items. -/
  item : ElementType
  /-- The item at what a position refers to. -/
  project : Expr → Expr

namespace IteratorPlan

/-- The type of positions. -/
def position (p : IteratorPlan) : String := p.storage ++ ".iterator"

/-- The type of pointers to positions. -/
def positionPointer (p : IteratorPlan) : String := p.position ++ " *"

/-- The statements that put a position on the heap and keep it in a field. -/
def keepPosition (p : IteratorPlan) (name field start : String) : List Stmt :=
  let v := Expr.name name
  [.assign v
    (.cast p.positionPointer (.callName "malloc" [.callName "sizeof" [.name p.position]])),
   .assign (.index v (.int 0)) ((Expr.name p.pointer).method start []),
   .assign (selfField field) v]

/-- The method that sets both positions. -/
def initMethod (p : IteratorPlan) : Function :=
  .storageLevel "void" "init" [selfParam, .typed (p.storage ++ " *") p.pointer]
    ([.decl p.positionPointer (.name "itn"), .decl p.positionPointer (.name "ite")] ++
      p.keepPosition "itn" "iter_now" "begin" ++ p.keepPosition "ite" "iter_end" "end")

/-- The method that releases both positions. -/
def releaseMethod : Function :=
  method "__dealloc__" [] []
    [.call "free" [selfField "iter_now"], .call "free" [selfField "iter_end"]]

/-- The method that yields the next item, converted by `value`. -/
def nextMethod (p : IteratorPlan) (value : Recipe) : Function :=
  let now := Expr.name "inow"
  let stop := Expr.name "iend"
  let result := Expr.name "pyval"
  method "__next__" []
    ([.decl p.position now, .decl p.position stop] ++ value.decls)
    [.assign now (.deref (selfField "iter_now")),
     .assign stop (.deref (selfField "iter_end")),
     .ifElse (.binary .notEq now stop) (value.setup ++ [.assign result value.result])
      [.raise (.name "StopIteration")],
     .expr (.inc (.deref (selfField "iter_now"))),
     .give result]

/-- The class. -/
def classDef (c : Catalog) (p : IteratorPlan) : Except DescriptorError ClassDef := do
  let value ← c.toHost (p.project (.deref (.name "inow"))) p.item
  return {
    kind := .extension
    name := p.name
    bases := ["object"]
    doc := none
    fields := []
    methods :=
      [p.initMethod, releaseMethod, method "__iter__" [] [] [.give self], p.nextMethod value] }

/-- The declaration of the class. -/
def interfaceClass (p : IteratorPlan) : ClassDef where
  kind := .extension
  name := p.name
  bases := ["object"]
  doc := none
  fields :=
    [⟨p.positionPointer, "iter_now", false⟩, ⟨p.positionPointer, "iter_end", false⟩,
     ⟨"object", "_owner", false⟩]
  methods :=
    [(Function.storageLevel "void" "init"
      [.anonymous p.name, .anonymous (p.storage ++ " *")] []).declaration]

end IteratorPlan

end WrapGen.Bundle
