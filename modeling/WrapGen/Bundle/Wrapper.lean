import WrapGen.Bundle.Iterator
/-!
# What set and map wrappers share

Both wrappers hold a pointer to the container, the object that keeps it alive
and a flag that says whether to release it. They are made from another wrapper,
from a host collection or empty; they count, iterate and release alike.
-/
namespace WrapGen.Bundle

open Code

/-- The names inside the classes of sets or of maps. -/
structure Vocabulary where
  /-- The field with the pointer to the container. -/
  pointer : String
  /-- The field that says whether to release the container. -/
  freeFlag : String
  /-- The argument with the initial content. -/
  initArg : String
  /-- The argument that overrides the flag. -/
  freeArg : String
  /-- The variable for a fresh iterator. -/
  iterator : String

namespace Vocabulary

/-- The names in set wrappers. -/
def set : Vocabulary := ⟨"set_ptr", "_free_set", "new_set", "free_set", "si"⟩

/-- The names in map wrappers. -/
def map : Vocabulary := ⟨"map_ptr", "_free_map", "new_map", "free_map", "mi"⟩

/-- The pointer to the container. -/
def container (w : Vocabulary) : Expr := selfField w.pointer

/-- The initial content. -/
def initial (w : Vocabulary) : Expr := .name w.initArg

/-- The statement that says whether the wrapper releases the container. -/
def owns (w : Vocabulary) (flag : Bool) : Stmt := .assign (selfField w.freeFlag) (.bool flag)

/-- The statement that allocates a fresh container. -/
def allocate (w : Vocabulary) (n : WrapperNames) : Stmt := .assign w.container (.alloc n.storage)

/-- The constructor: another wrapper is shared, a collection is copied by one
of `copies`, anything else that is true makes an empty container. -/
def initMethod (w : Vocabulary) (n : WrapperNames) (decls : List Stmt)
    (copies : List (Expr × List Stmt)) : Function :=
  let share :=
    (.isInstance w.initial [n.extensionClass],
      [.assign w.container (.attr (.cast n.extensionClass w.initial) w.pointer),
       .assign (selfField "_owner") w.initial,
       w.owns false])
  let fresh := (.callName "bool" [w.initial], [w.allocate n, w.owns true])
  method "__cinit__"
    [.withDefault w.initArg (.bool true), .withDefault w.freeArg .none]
    decls
    [.branch (share :: copies ++ [fresh]) (some [w.owns false]),
     .when (.binary .isNot (.name w.freeArg) .none)
      [.assign (selfField w.freeFlag) (.name w.freeArg)]]

/-- The method that releases the container if the wrapper owns it. -/
def releaseMethod (w : Vocabulary) : Function :=
  method "__dealloc__" [] [] [.when (selfField w.freeFlag) [.delete w.container]]

/-- The membership test: an argument of another kind is no member, and neither is
one that storage cannot hold. -/
def containsMethod (w : Vocabulary) (a : Argument) (accepted : Expr) (target : String) :
    Function :=
  method "__contains__" [.plain a.name] (a.declsFor target)
    (.when (.not accepted) [.give (.bool false)] ::
      a.convertOr target [.give (.bool false)] ++
      [.give (countPositive w.container (.name target))])

/-- The method that counts the items. -/
def lengthMethod (w : Vocabulary) : Function :=
  method "__len__" [] [] [.give (w.container.method "size" [])]

/-- The method that makes an iterator. -/
def iterMethod (w : Vocabulary) (n : WrapperNames) : Function :=
  let it := Expr.name w.iterator
  method "__iter__" [] []
    [.decl n.iteratorClass it,
     .assign it (.callName n.iteratorClass []),
     .expr (it.method "init" [w.container]),
     .assign (.attr it "_owner") self,
     .give it]

/-- The method that removes an argument if it is a member. -/
def removeMethod (w : Vocabulary) (name : String) (a : Argument) (target : String) : Function :=
  method name [.plain a.name] (a.declsFor target)
    [.when (.binary .isIn a.expr self)
      (a.convertInto target ++ [.expr (w.container.method "erase" [.name target])])]

/-- The iterator over items of the type `item`. -/
def iteratorPlan (w : Vocabulary) (n : WrapperNames) (item : ElementType)
    (project : Expr → Expr) : IteratorPlan :=
  ⟨n.iteratorClass, n.storage, w.pointer, item, project⟩

/-- The fragment that declares the wrapper. -/
def interfaceFragment (w : Vocabulary) (n : WrapperNames) (plan : IteratorPlan) : Fragment :=
  [.comment n.publicClass,
   .classDef plan.interfaceClass,
   .classDef {
    kind := .extension
    name := n.extensionClass
    bases := []
    doc := none
    fields :=
      [⟨n.storage ++ " *", w.pointer, false⟩, ⟨"object", "_owner", false⟩,
       ⟨"bint", w.freeFlag, true⟩]
    methods := [] }]

end Vocabulary

/-- The extension class with the methods of a wrapper. -/
def extensionClass (n : WrapperNames) (methods : List Function) : ClassDef where
  kind := .extension
  name := n.extensionClass
  bases := []
  doc := none
  fields := []
  methods := methods

/-- The class that users see, shown as the value `shown`. -/
def publicClass (n : WrapperNames) (base doc : String) (shown : Expr) : ClassDef where
  kind := .host
  name := n.publicClass
  bases := [n.extensionClass, base]
  doc := some doc
  fields := []
  methods :=
    [method "__str__" [] [] [.give (self.method "__repr__" [])],
     method "__repr__" [] [] [.give shown]]

/-- The fragment with the scenario test. -/
def testFragment (n : WrapperNames) (body : List Stmt) : Fragment :=
  [.comment n.publicClass, .function (.hostCallable n.test [] body)]

end WrapGen.Bundle
