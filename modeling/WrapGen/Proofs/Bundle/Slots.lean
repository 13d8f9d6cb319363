import WrapGen.Batch.Request
import WrapGen.Proofs.Bundle.Parts
import WrapGen.Proofs.Code.Slots

/-!
# Generated code has no slots

Bundles are put together from conversions, and the pieces around a conversion
hold no slot of their own: one lemma for each piece says so, and the bundle of
every shape follows from its pieces.

* `code_slotFree`: conversions and bundles hold no slot, whatever the catalog.
-/
namespace WrapGen

namespace Bundle

open Code

/-! ## Arguments -/

theorem slotFree_method (name : String) (args : List Param) (decls stmts : List Stmt) :
    (method name args decls stmts).slotFree =
      (args.all (fun p => p.default.all Expr.slotFree) &&
        (Stmt.slotFreeAll decls && Stmt.slotFreeAll stmts)) := by
  simp [method, Function.hostCallable, Function.slotFree, selfParam, Param.plain]

namespace Argument

variable {a : Argument} (h : a.recipe.slotFree = true)
include h

theorem slotFree_declsFor (target : String) : Stmt.slotFreeAll (a.declsFor target) = true := by
  simp [declsFor, (Recipe.slotFree_iff.mp h).1]

theorem slotFree_convertInto (target : String) :
    Stmt.slotFreeAll (a.convertInto target) = true := by
  obtain ⟨-, hb, hr⟩ := Recipe.slotFree_iff.mp h
  simp [convertInto, hb, hr]

theorem slotFree_convertOr (target : String) {fallback : List Stmt}
    (hf : Stmt.slotFreeAll fallback = true) :
    Stmt.slotFreeAll (a.convertOr target fallback) = true := by
  unfold convertOr
  split <;> simp [slotFree_convertInto h, hf]

end Argument

theorem slotFree_argument {c : Catalog} {name : String} {t : ElementType} {names : ElementNames}
    {a : Argument} (h : Argument.of c name t names = .ok a) : a.recipe.slotFree = true := by
  obtain ⟨recipe, hr, rfl⟩ := Argument.of_eq_ok h
  exact Catalog.slotFree_toStorage rfl hr

section
variable {t : ElementType} {subject : Expr} (hs : subject.slotFree = true)
include hs

theorem slotFree_typeCheck {c : Catalog} {accepted : Expr}
    (h : typeCheck c subject t = .ok accepted) : accepted.slotFree = true := by
  obtain ⟨kinds, -, rfl⟩ := typeCheck_eq_ok h
  exact hs

theorem slotFree_insertionGuard {g : Generator} {role : String} {guards : List Stmt}
    (h : insertionGuard g subject t role = .ok guards) : Stmt.slotFreeAll guards = true := by
  obtain ⟨-, rfl⟩ | ⟨-, human, accepted, -, ha, rfl⟩ := insertionGuard_eq_ok h
  · rfl
  · simp [slotFree_typeCheck hs ha, raiseType, Expr.str]

end

/-! ## Methods -/

section
variable {a key value : Argument} {w : Vocabulary} {n : WrapperNames} {s : String} {flag : Bool}
  {accepted : Expr} {guards : List Stmt}

@[simp] theorem slotFree_selfField : (selfField s).slotFree = true := rfl

@[simp] theorem slotFree_container : w.container.slotFree = true := rfl

@[simp] theorem slotFree_initial : w.initial.slotFree = true := rfl

@[simp] theorem slotFree_owns : (w.owns flag).slotFree = true := rfl

@[simp] theorem slotFree_allocate : (w.allocate n).slotFree = true := rfl

@[simp] theorem slotFree_expr : a.expr.slotFree = true := rfl

theorem slotFree_initMethod {decls : List Stmt} {copies : List (Expr × List Stmt)}
    (hd : Stmt.slotFreeAll decls = true) (hc : Stmt.slotFreeArms copies = true) :
    (w.initMethod n decls copies).slotFree = true := by
  rw [Vocabulary.initMethod, slotFree_method]
  simp [hd, hc, Param.withDefault]

theorem slotFree_setInitMethod (hv : value.recipe.slotFree = true) :
    (setInitMethod n value).slotFree = true := by
  refine slotFree_initMethod (Argument.slotFree_declsFor hv "s") ?_
  simp [isIterable, Argument.slotFree_convertInto hv]

theorem slotFree_storeEntry (hk : key.recipe.slotFree = true) (hv : value.recipe.slotFree = true) :
    Stmt.slotFreeAll (storeEntry key value) = true := by
  obtain ⟨-, hkb, hkr⟩ := Recipe.slotFree_iff.mp hk
  obtain ⟨-, hvb, hvr⟩ := Recipe.slotFree_iff.mp hv
  simp [storeEntry, hkb, hkr, hvb, hvr]

theorem slotFree_entryDecls (hk : key.recipe.slotFree = true) (hv : value.recipe.slotFree = true) :
    Stmt.slotFreeAll (entryDecls key value) = true := by
  simp [entryDecls, (Recipe.slotFree_iff.mp hk).1, (Recipe.slotFree_iff.mp hv).1]

theorem slotFree_mapInitMethod (hk : key.recipe.slotFree = true)
    (hv : value.recipe.slotFree = true) : (mapInitMethod n key value).slotFree = true := by
  refine slotFree_initMethod (slotFree_entryDecls hk hv) ?_
  simp [slotFree_storeEntry hk hv]

theorem slotFree_containsMethod (ha : a.recipe.slotFree = true)
    (hk : accepted.slotFree = true) : (w.containsMethod a accepted s).slotFree = true := by
  rw [Vocabulary.containsMethod, slotFree_method]
  simp [Argument.slotFree_declsFor ha, Argument.slotFree_convertOr ha, hk, Param.plain,
    countPositive]

theorem slotFree_removeMethod {name : String} (ha : a.recipe.slotFree = true) :
    (w.removeMethod name a s).slotFree = true := by
  rw [Vocabulary.removeMethod, slotFree_method]
  simp [Argument.slotFree_declsFor ha, Argument.slotFree_convertInto ha, Param.plain, self]

theorem slotFree_addMethod (hv : value.recipe.slotFree = true)
    (hg : Stmt.slotFreeAll guards = true) : (addMethod value guards).slotFree = true := by
  rw [addMethod, slotFree_method]
  simp [hg, Argument.slotFree_declsFor hv, Argument.slotFree_convertInto hv, Param.plain]

theorem slotFree_putMethod (hk : key.recipe.slotFree = true) (hv : value.recipe.slotFree = true)
    (hg : Stmt.slotFreeAll guards = true) : (putMethod key value guards).slotFree = true := by
  rw [putMethod, slotFree_method]
  simp [hg, slotFree_entryDecls hk hv, slotFree_storeEntry hk hv, Param.plain]

theorem slotFree_getMethod {found : Recipe} (hk : key.recipe.slotFree = true)
    (ha : accepted.slotFree = true) (hf : found.slotFree = true) :
    (getMethod key accepted s found).slotFree = true := by
  obtain ⟨hd, hb, hr⟩ := Recipe.slotFree_iff.mp hf
  rw [getMethod, slotFree_method]
  simp [Argument.slotFree_declsFor hk, Argument.slotFree_convertOr hk, ha, Param.plain,
    countPositive, raiseKey, raiseType, hd, hb, hr, Expr.str]

theorem slotFree_iterMethod : (w.iterMethod n).slotFree = true := rfl

theorem slotFree_nextMethod {p : IteratorPlan} {item : Recipe} (hi : item.slotFree = true) :
    (p.nextMethod item).slotFree = true := by
  obtain ⟨hd, hb, hr⟩ := Recipe.slotFree_iff.mp hi
  rw [IteratorPlan.nextMethod, slotFree_method]
  simp [hd, hb, hr]

theorem slotFree_initPosition (p : IteratorPlan) : p.initMethod.slotFree = true := rfl

theorem slotFree_releaseMethod : (w.releaseMethod).slotFree = true := rfl

theorem slotFree_lengthMethod : (w.lengthMethod).slotFree = true := rfl

/-! ## Classes and fragments -/

theorem slotFree_classDef {c : Catalog} {p : IteratorPlan} {d : ClassDef}
    (hp : ∀ e : Expr, e.slotFree = true → (p.project e).slotFree = true)
    (h : p.classDef c = .ok d) : d.slotFree = true := by
  obtain ⟨item, hi, h⟩ := bind_eq_ok h
  cases h
  have hnext := slotFree_nextMethod (p := p) (Catalog.slotFree_toHost (hp _ rfl) hi)
  show [p.initMethod, _, _, p.nextMethod item].all Function.slotFree = true
  rw [List.all_cons, slotFree_initPosition, List.all_cons, List.all_cons, List.all_cons, hnext]
  rfl

theorem slotFree_extensionClass (methods : List Function) :
    (extensionClass n methods).slotFree = methods.all Function.slotFree := rfl

theorem slotFree_publicClass {base doc : String} {shown : Expr} (h : shown.slotFree = true) :
    (publicClass n base doc shown).slotFree = true := by
  show [_, method "__repr__" [] [] [.give shown]].all Function.slotFree = true
  simp [slotFree_method, self, h]

theorem slotFree_interfaceFragment (p : IteratorPlan) :
    Fragment.slotFree (w.interfaceFragment n p) = true := rfl

theorem slotFree_testFragment {body : List Stmt} (h : Stmt.slotFreeAll body = true) :
    Fragment.slotFree (testFragment n body) = true := by
  simp [testFragment, Fragment.slotFree, Item.slotFree, Function.slotFree, Function.hostCallable, h]

theorem slotFree_setScenario (samples : List Literal) :
    Stmt.slotFreeAll (setScenario n samples) = true := rfl

theorem slotFree_mapScenario (samples : Samples) (t : ElementType) (keys values : List Literal) :
    Stmt.slotFreeAll (mapScenario n samples t keys values) = true := rfl

theorem slotFree_converter {returns name type param : String} {r : Recipe}
    (hr : r.slotFree = true) :
    (converter returns name (.typed type param) r).slotFree = true := by
  obtain ⟨hd, hb, hres⟩ := Recipe.slotFree_iff.mp hr
  simp [converter, Function.storageLevel, Function.slotFree, Param.typed, hd, hb, hres]

end

end Bundle

namespace Generator

open Code WrapGen.Bundle

variable {g : Generator} {b : Bundle}

theorem slotFree_setWrapper {e : ElementType} (h : g.setWrapper e = .ok b) (u : CodeUnit) :
    Fragment.slotFree (b.get u) = true := by
  obtain ⟨names, f, samples, -, hf, -, rfl⟩ := setWrapper_eq_ok h
  cases u with
  | implementation =>
    obtain ⟨value, accepted, guards, iterator, hv, ha, hg, hi, rfl⟩ := setImplementation_eq_ok hf
    have hvalue := slotFree_argument hv
    have haccepted := slotFree_typeCheck slotFree_expr ha
    have hguards := slotFree_insertionGuard slotFree_expr hg
    simp [PerUnit.get, Fragment.slotFree, Item.slotFree, setClass, slotFree_extensionClass,
      slotFree_classDef (fun _ he => he) hi, slotFree_setInitMethod hvalue,
      slotFree_releaseMethod, slotFree_containsMethod hvalue haccepted, slotFree_lengthMethod,
      slotFree_iterMethod, slotFree_addMethod hvalue hguards, slotFree_removeMethod hvalue,
      slotFree_publicClass (show setShown.slotFree = true from rfl)]
  | interface => exact slotFree_interfaceFragment _
  | tests => exact slotFree_testFragment (slotFree_setScenario _)

theorem slotFree_mapWrapper {k v : ElementType} (h : g.mapWrapper k v = .ok b) (u : CodeUnit) :
    Fragment.slotFree (b.get u) = true := by
  obtain ⟨names, f, keys, values, -, hf, -, -, rfl⟩ := mapWrapper_eq_ok h
  cases u with
  | implementation =>
    obtain ⟨key, value, found, accepted, keyGuards, valueGuards, iterator, hk, hv, hfound, ha, hkg,
      hvg, hi, rfl⟩ := mapImplementation_eq_ok hf
    have hkey := slotFree_argument hk
    have hvalue := slotFree_argument hv
    have haccepted := slotFree_typeCheck slotFree_expr ha
    have hguards : Stmt.slotFreeAll (keyGuards ++ valueGuards) = true := by
      simp [slotFree_insertionGuard slotFree_expr hkg, slotFree_insertionGuard slotFree_expr hvg]
    simp [PerUnit.get, Fragment.slotFree, Item.slotFree, mapClass, slotFree_extensionClass,
      slotFree_classDef (p := Vocabulary.map.iteratorPlan _ _ keyAt) (fun _ he => he) hi,
      slotFree_mapInitMethod hkey hvalue, slotFree_releaseMethod,
      slotFree_containsMethod hkey haccepted, slotFree_lengthMethod, slotFree_iterMethod,
      slotFree_getMethod hkey haccepted (Catalog.slotFree_toHost rfl hfound),
      slotFree_putMethod hkey hvalue hguards, slotFree_removeMethod hkey,
      slotFree_publicClass (show mapShown.slotFree = true from rfl)]
  | interface => exact slotFree_interfaceFragment _
  | tests => exact slotFree_testFragment (slotFree_mapScenario _ _ _ _)

theorem slotFree_converters {names : ConverterNames} {t : ElementType} {kind : HostKind}
    {hostParam storageParam : String}
    (h : g.converters names t kind hostParam storageParam = .ok b) (u : CodeUnit) :
    Fragment.slotFree (b.get u) = true := by
  obtain ⟨inward, outward, hin, hout, rfl⟩ := converters_eq_ok h
  cases u with
  | implementation =>
    simp [PerUnit.get, ofConverters, Fragment.slotFree, Item.slotFree,
      slotFree_converter (Catalog.slotFree_toStorage rfl hin),
      slotFree_converter (Catalog.slotFree_toHost rfl hout)]
  | interface => rfl
  | tests => rfl

end Generator

/-- No slot of a recipe reaches generated code. Whatever recipes a catalog has, the
conversion of a value without slots has none, and neither has the code of any
request in any unit. -/
theorem code_slotFree (g : Generator) :
    (∀ (source : Code.Expr) (t : ElementType) (r : Code.Recipe), source.slotFree = true →
      (g.catalog.toStorage source t = .ok r ∨ g.catalog.toHost source t = .ok r) →
      r.slotFree = true) ∧
    ∀ (request : Request) (b : Bundle), request.bundle g = .ok b →
      ∀ u, Code.Fragment.slotFree (b.get u) = true := by
  constructor
  · rintro source t r hs (h | h)
    · exact Catalog.slotFree_toStorage hs h
    · exact Catalog.slotFree_toHost hs h
  · intro request b h u
    have hmade := mapError_eq_ok_iff.mp h
    cases request with
    | set e => exact Generator.slotFree_setWrapper hmade u
    | map k v => exact Generator.slotFree_mapWrapper hmade u
    | setConverters e =>
      obtain ⟨e', -, hmade⟩ := bind_eq_ok hmade
      obtain ⟨names, -, hmade⟩ := bind_eq_ok hmade
      exact Generator.slotFree_converters hmade u
    | mapConverters k v =>
      obtain ⟨k', -, hmade⟩ := bind_eq_ok hmade
      obtain ⟨names, -, hmade⟩ := bind_eq_ok hmade
      exact Generator.slotFree_converters hmade u

/-- Slots in a dict, in a handler and in the last of several conditions: all of them
are filled. -/
theorem code_slotFree_scattered :
    let slots : Code.Recipe :=
      { decls := [.decl "int" (.scratch "n")]
        setup :=
          [.attempt [.branch [(.name "x", []), (.hole, [.ret (some (.scratch "n"))])] none]
            "OverflowError" [.forEach ["y"] (.dict [(.scratch "n", .hole)]) [.raise .hole]]]
        result := .index .hole (.scratch "n") }
    let c := Catalog.containers.register .int32 []
      ⟨"int", "Int", "int", "int", [.int], slots, slots⟩
    let g : Generator := ⟨c, .builtin, .strict⟩
    slots.slotFree = false ∧
      (∃ r, c.toHost (.name "x") (.vector (.primitive .int32)) = .ok r ∧ r.slotFree = true) ∧
      ∃ b, (Request.map (.primitive .int32) (.primitive .int32)).bundle g = .ok b ∧
        ∀ u, Code.Fragment.slotFree (b.get u) = true := by
  intro slots c g
  refine ⟨rfl, ⟨_, rfl, ?_⟩, _, rfl, ?_⟩
  · exact (code_slotFree g).1 (.name "x") (.vector (.primitive .int32)) _ rfl (.inr rfl)
  · exact (code_slotFree g).2 (.map (.primitive .int32) (.primitive .int32)) _ rfl

end WrapGen
