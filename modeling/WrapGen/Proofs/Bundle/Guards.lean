import WrapGen.Proofs.Bundle.Parts
import WrapGen.Proofs.Bundle.Unknown
import WrapGen.Proofs.Conversion.Hoisting

/-!
# What strict insertion adds

Two generators that differ in their insertion alone are run side by side: they share
every step but the making of guards. What a guard looks up has been found before, by the
conversion of the same argument, so strict insertion fails nowhere else, and in the end
one method has guards that the other has not.

* `Generator.strict_adds_guards`: the bundles of a strict generator are those of a
  permissive one with guards in the method that inserts, and they fail alike.
-/
namespace WrapGen

open Code

namespace Bundle

variable {c : Catalog}

/-! ## Guards -/

/-- Something that is inserted: the argument that holds it, its type, and the word for it
in messages. -/
structure Inserted where
  argument : String
  type : ElementType
  role : String

namespace Inserted

/-- What is inserted into a set. -/
def ofSet (element : ElementType) : List Inserted := [⟨"value", element, "values"⟩]

/-- What is inserted into a map. -/
def ofMap (key value : ElementType) : List Inserted :=
  [⟨"key", key, "keys"⟩, ⟨"value", value, "values"⟩]

/-- The statement raises a type error if the argument is of no kind that its type accepts,
and does nothing else. -/
def GuardedBy (i : Inserted) (c : Catalog) (s : Stmt) : Prop :=
  ∃ kinds human, c.accepts i.type = .ok kinds ∧ c.humanName i.type = .ok human ∧
    s = .when (.not (.isInstance (.name i.argument) (kinds.map HostKind.name)))
      [raiseType human i.role]

/-- The recipe converts the argument to storage. -/
def StoredBy (i : Inserted) (c : Catalog) (r : Recipe) : Prop :=
  c.toStorage (.name i.argument) i.type = .ok r

end Inserted

/-- The parts of a method that inserts. -/
structure Layout where
  /-- What the method declares itself. -/
  own : List Stmt
  /-- The conversions of what is inserted. -/
  recipes : List Recipe
  /-- What the method does with the results. -/
  block : List Stmt

namespace Layout

/-- All that is declared by the method and for the conversions. -/
def decls (l : Layout) : List Stmt := l.own ++ l.recipes.flatMap Recipe.decls

/-- All that runs. -/
def rest (l : Layout) : List Stmt := l.recipes.flatMap Recipe.setup ++ l.block

end Layout

/-- The method `m'` is `m` with guards that stand after the declarations and before
everything else, one for each thing that is inserted. -/
structure AddsGuards (c : Catalog) (inserted : List Inserted) (l : Layout) (guards : List Stmt)
    (m m' : Function) : Prop where
  own : ∀ s ∈ l.own, s.isDecl = true
  block : ∀ s ∈ Stmt.nestedAll l.block, s.isDecl = false
  stored : List.Forall₂ (fun i r => i.StoredBy c r) inserted l.recipes
  guarded : List.Forall₂ (fun i s => i.GuardedBy c s) inserted guards
  body : m.body = some (l.decls ++ l.rest)
  method : m' = { m with body := some (l.decls ++ guards ++ l.rest) }
  /-- Where the recipes of the catalog list what they declare, no declaration comes later. -/
  hoisted : c.Hoists → (∀ s ∈ l.decls, s.isDecl = true) ∧
    ∀ s ∈ Stmt.nestedAll l.rest, s.isDecl = false

/-- The two fragments are equal but for one method of one class, which are related. -/
def DifferIn (className methodName : String) (R : Function → Function → Prop)
    (f f' : Fragment) : Prop :=
  ∃ before cls after front m m' back, ClassDef.name cls = className ∧
    Function.name m = methodName ∧ R m m' ∧
    f = before ++ .classDef { cls with methods := front ++ m :: back } :: after ∧
    f' = before ++ .classDef { cls with methods := front ++ m' :: back } :: after

/-- The bundle `b'` is `b` with guards in one method of one class of the implementation. -/
structure Strengthens (c : Catalog) (className methodName : String) (inserted : List Inserted)
    (b b' : Bundle) : Prop where
  interface : b'.interface = b.interface
  tests : b'.tests = b.tests
  implementation :
    DifferIn className methodName (fun m m' => ∃ l guards, AddsGuards c inserted l guards m m')
      b.implementation b'.implementation

/-! ## Methods that insert -/

section
variable {a key value : Argument} {name : String} {t k : ElementType}
  {names keyNames valueNames : ElementNames} {guards : List Stmt}

theorem Argument.storedBy (h : Argument.of c name t names = .ok a) (role : String) :
    Inserted.StoredBy ⟨name, t, role⟩ c a.recipe := by
  obtain ⟨recipe, hr, rfl⟩ := Argument.of_eq_ok h
  exact hr

/-- For an argument that can be converted strict insertion makes one guard, and
permissive insertion none. -/
theorem Argument.guard_corresponds (h : Argument.of c name t names = .ok a) (samples : Samples)
    (role : String) :
    Corresponds (fun gs gs' => gs = [] ∧ ∃ s, gs' = [s] ∧ Inserted.GuardedBy ⟨name, t, role⟩ c s)
      (insertionGuard ⟨c, samples, .permissive⟩ a.expr t role)
      (insertionGuard ⟨c, samples, .strict⟩ a.expr t role) := by
  -- the conversion has looked up all that the guard looks up
  have hleaves := (demands_argument name t names).ok_iff.mp ⟨a, h⟩
  obtain ⟨guards, hg⟩ := exists_insertionGuard (g := ⟨c, samples, .strict⟩) hleaves a.expr role
  rw [hg]
  obtain ⟨hi, -⟩ | ⟨-, human, accepted, hh, ha, rfl⟩ := insertionGuard_eq_ok hg
  · cases hi
  · obtain ⟨kinds, hk, rfl⟩ := typeCheck_eq_ok ha
    obtain ⟨recipe, -, rfl⟩ := Argument.of_eq_ok h
    exact ⟨rfl, _, rfl, kinds, human, hk, hh, rfl⟩

theorem Layout.hoisted {inserted : List Inserted} {l : Layout} (hc : c.Hoists)
    (hown : ∀ s ∈ l.own, s.isDecl = true) (hblock : ∀ s ∈ Stmt.nestedAll l.block, s.isDecl = false)
    (hstored : List.Forall₂ (fun i r => Inserted.StoredBy i c r) inserted l.recipes) :
    (∀ s ∈ l.decls, s.isDecl = true) ∧ ∀ s ∈ Stmt.nestedAll l.rest, s.isDecl = false := by
  have hhoisted : ∀ r ∈ l.recipes, r.Hoisted := fun r hr => by
    obtain ⟨i, -, hi⟩ := forall₂_mem_right hstored hr
    exact Catalog.toStorage_hoisted hc hi
  constructor
  · refine List.forall_mem_append.mpr ⟨hown, fun s hs => ?_⟩
    obtain ⟨r, hr, hs⟩ := List.mem_flatMap.mp hs
    exact (hhoisted r hr).decls s hs
  · rw [Layout.rest, Stmt.nestedAll_append, Stmt.nestedAll_flatMap]
    refine List.forall_mem_append.mpr ⟨fun s hs => ?_, hblock⟩
    obtain ⟨r, hr, hs⟩ := List.mem_flatMap.mp hs
    exact (hhoisted r hr).setup s hs

/-- A method with the parts of a layout, without guards and with them. -/
theorem method_addsGuards {inserted : List Inserted} {l : Layout}
    (hown : ∀ s ∈ l.own, s.isDecl = true) (hblock : ∀ s ∈ Stmt.nestedAll l.block, s.isDecl = false)
    (hstored : List.Forall₂ (fun i r => Inserted.StoredBy i c r) inserted l.recipes)
    (hguarded : List.Forall₂ (fun i s => Inserted.GuardedBy i c s) inserted guards)
    (name : String) (params : List Param) :
    AddsGuards c inserted l guards (method name params l.decls l.rest)
      (method name params l.decls (guards ++ l.rest)) where
  own := hown
  block := hblock
  stored := hstored
  guarded := hguarded
  body := rfl
  method := by
    rw [List.append_assoc]
    rfl
  hoisted hc := Layout.hoisted hc hown hblock hstored

theorem addMethod_addsGuards (h : Argument.of c "value" t names = .ok value)
    (hg : List.Forall₂ (fun i s => Inserted.GuardedBy i c s) (Inserted.ofSet t) guards) :
    ∃ l, AddsGuards c (Inserted.ofSet t) l guards (addMethod value [])
      (addMethod value guards) := by
  let l : Layout :=
    { own := [.decl value.names.storage (.name "v")]
      recipes := [value.recipe]
      block := [.assign (.name "v") value.recipe.result,
        .expr (Vocabulary.set.container.method "insert" [.name "v"])] }
  have hmethod (guards : List Stmt) : addMethod value guards =
      method "add" [.plain value.name] l.decls (guards ++ l.rest) := by
    simp [l, Layout.decls, Layout.rest, addMethod, Argument.declsFor, Argument.convertInto]
  have hadds := method_addsGuards (l := l) (List.forall_mem_singleton.mpr rfl)
    (List.forall_mem_cons.mpr ⟨rfl, List.forall_mem_singleton.mpr rfl⟩)
    (.cons (Argument.storedBy h "values") .nil) hg "add" [.plain value.name]
  rw [hmethod, hmethod, List.nil_append]
  exact ⟨l, hadds⟩

theorem putMethod_addsGuards (hk : Argument.of c "key" k keyNames = .ok key)
    (hv : Argument.of c "value" t valueNames = .ok value)
    (hg : List.Forall₂ (fun i s => Inserted.GuardedBy i c s) (Inserted.ofMap k t) guards) :
    ∃ l, AddsGuards c (Inserted.ofMap k t) l guards (putMethod key value [])
      (putMethod key value guards) := by
  let l : Layout :=
    { own := []
      recipes := [key.recipe, value.recipe]
      block := [.assign (.index (.deref Vocabulary.map.container) key.recipe.result)
        value.recipe.result] }
  have hmethod (guards : List Stmt) : putMethod key value guards =
      method "__setitem__" [.plain key.name, .plain value.name] l.decls (guards ++ l.rest) := by
    simp [l, Layout.decls, Layout.rest, putMethod, entryDecls, storeEntry]
  have hadds := method_addsGuards (l := l) (List.forall_mem_nil _)
    (List.forall_mem_singleton.mpr rfl)
    (.cons (Argument.storedBy hk "keys") (.cons (Argument.storedBy hv "values") .nil)) hg
    "__setitem__" [.plain key.name, .plain value.name]
  rw [hmethod, hmethod, List.nil_append]
  exact ⟨l, hadds⟩

end

end Bundle

namespace Generator

open WrapGen.Bundle

variable {c : Catalog}

/-! ## Bundles -/

theorem setImplementation_corresponds (samples : Samples) (names : SetNames) (e : ElementType) :
    Corresponds
      (DifferIn names.wrapper.extensionClass "add"
        fun m m' => ∃ l guards, AddsGuards c (Inserted.ofSet e) l guards m m')
      (Generator.setImplementation ⟨c, samples, .permissive⟩ names e)
      (Generator.setImplementation ⟨c, samples, .strict⟩ names e) := by
  refine .same fun value hv => .same fun accepted _ => ?_
  refine (Argument.guard_corresponds hv samples "values").bind fun _ _ hguards => ?_
  obtain ⟨rfl, guard, rfl, hguard⟩ := hguards
  refine .same fun iterator _ => ?_
  obtain ⟨l, hadds⟩ := addMethod_addsGuards hv (.cons hguard .nil)
  exact ⟨[_, .classDef iterator], extensionClass names.wrapper [], [_], [_, _, _, _, _],
    addMethod value [], addMethod value [guard], [_], rfl, rfl, ⟨l, [guard], hadds⟩, rfl, rfl⟩

theorem mapImplementation_corresponds (samples : Samples) (names : MapNames)
    (k t : ElementType) :
    Corresponds
      (DifferIn names.wrapper.extensionClass "__setitem__"
        fun m m' => ∃ l guards, AddsGuards c (Inserted.ofMap k t) l guards m m')
      (Generator.mapImplementation ⟨c, samples, .permissive⟩ names k t)
      (Generator.mapImplementation ⟨c, samples, .strict⟩ names k t) := by
  refine .same fun key hk => .same fun value hv => .same fun found _ => .same fun accepted _ => ?_
  refine (Argument.guard_corresponds hk samples "keys").bind fun _ _ hkeyGuards => ?_
  obtain ⟨rfl, keyGuard, rfl, hkeyGuard⟩ := hkeyGuards
  refine (Argument.guard_corresponds hv samples "values").bind fun _ _ hvalueGuards => ?_
  obtain ⟨rfl, valueGuard, rfl, hvalueGuard⟩ := hvalueGuards
  refine .same fun iterator _ => ?_
  obtain ⟨l, hadds⟩ := putMethod_addsGuards hk hv (.cons hkeyGuard (.cons hvalueGuard .nil))
  exact ⟨[_, .classDef iterator], extensionClass names.wrapper [], [_], [_, _, _, _, _, _],
    putMethod key value [], putMethod key value [keyGuard, valueGuard], [_], rfl, rfl,
    ⟨l, [keyGuard, valueGuard], hadds⟩, rfl, rfl⟩

/-- With the same catalog and samples, a strict generator and a permissive one fail alike,
with the same error, and otherwise the bundles of the strict one are those of the other
with guards added to one method of the class that wraps the storage: in sets one for the
value, in maps one for the key and then one for the value. Interfaces, tests and converters
are the same. -/
theorem strict_adds_guards (c : Catalog) (samples : Samples) :
    let permissive : Generator := ⟨c, samples, .permissive⟩
    let strict : Generator := ⟨c, samples, .strict⟩
    (∀ e, Corresponds
      (fun b b' => ∃ names, SetNames.of c e = .ok names ∧
        Strengthens c names.wrapper.extensionClass "add" (Inserted.ofSet e) b b')
      (permissive.setWrapper e) (strict.setWrapper e)) ∧
    (∀ k t, Corresponds
      (fun b b' => ∃ names, MapNames.of c k t = .ok names ∧
        Strengthens c names.wrapper.extensionClass "__setitem__" (Inserted.ofMap k t) b b')
      (permissive.mapWrapper k t) (strict.mapWrapper k t)) ∧
    (∀ e, strict.setConverters e = permissive.setConverters e) ∧
    ∀ k t, strict.mapConverters k t = permissive.mapConverters k t := by
  intro permissive strict
  refine ⟨fun e => ?_, fun k t => ?_, fun _ => rfl, fun _ _ => rfl⟩
  · refine .same fun element he => ?_
    cases (ElementType.asKey_eq_ok he).1
    refine .same fun names hn => ?_
    refine (setImplementation_corresponds samples names e).bind fun f f' hdiffer => ?_
    exact .same fun values _ => ⟨names, hn, rfl, rfl, hdiffer⟩
  · refine .same fun key hk => ?_
    cases (ElementType.asKey_eq_ok hk).1
    refine .same fun names hn => ?_
    refine (mapImplementation_corresponds samples names k t).bind fun f f' hdiffer => ?_
    exact .same fun keys _ => .same fun values _ => ⟨names, hn, rfl, rfl, hdiffer⟩

/-- Sets of texts, whose conversion declares a temporary before the guard. -/
theorem strict_adds_guards_texts :
    let texts : ElementType := .primitive .str
    ∃ b b' className,
      Generator.setWrapper ⟨.builtin, .builtin, .permissive⟩ texts = .ok b ∧
      Generator.setWrapper ⟨.builtin, .builtin, .strict⟩ texts = .ok b' ∧
      Catalog.builtin.Hoists ∧
      Strengthens .builtin className "add" (Inserted.ofSet texts) b b' := by
  intro texts
  have hset := (strict_adds_guards .builtin .builtin).1 texts
  have hdemands := Generator.demands_setWrapper ⟨.builtin, .builtin, .permissive⟩
    (e := texts) rfl ⟨_, rfl⟩
  obtain ⟨b, hb⟩ := hdemands.exists_ok
  obtain ⟨b', hb'⟩ := hset.exists_ok_iff.mp ⟨b, hb⟩
  rw [hb, hb'] at hset
  obtain ⟨names, -, hstrong⟩ := hset
  exact ⟨b, b', _, hb, hb', Catalog.hoists_builtin, hstrong⟩

end Generator

end WrapGen
