import WrapGen.Batch.Request
import WrapGen.Proofs.Bundle.Parts
import WrapGen.Proofs.Code.Blocks
import WrapGen.Proofs.Conversion.Solid

/-!
# Generated code is written in blocks

Bundles are put together from conversions and names. Around them stand fixed pieces,
and each of these is solid when what it is given is: one lemma for each piece says so.
The names of a wrapper are plain because the spellings of its types are.

* `Generator.solid_setWrapper`, `Generator.solid_mapWrapper`,
  `Generator.solid_converters`: the bundle of every shape is solid when the catalog is.
* `code_blockStructured`: with the built-in catalog, the text of every unit of every
  request is made of blocks.
-/
namespace WrapGen

open Text

namespace Bundle

open Code

/-! ## Names -/

/-- The names of a wrapper are plain. -/
structure WrapperNames.Plain (n : WrapperNames) : Prop where
  publicClass : isPlain n.publicClass = true
  extensionClass : isPlain n.extensionClass = true
  iteratorClass : isPlain n.iteratorClass = true
  storage : isPlain n.storage = true
  test : isPlain n.test = true

/-- The names of an element type are plain. -/
structure ElementNames.Plain (n : ElementNames) : Prop where
  storage : isPlain n.storage = true
  human : isPlain n.human = true

/-- The names of a pair of converters are plain. -/
structure ConverterNames.Plain (n : ConverterNames) : Prop where
  comment : isPlain n.comment = true
  toStorage : isPlain n.toStorage = true
  toHost : isPlain n.toHost = true
  storage : isPlain n.storage = true

section
variable {c : Catalog} (hc : c.Solid)
include hc

theorem plain_elementNames {t : ElementType} {n : ElementNames}
    (h : ElementNames.of c t = .ok n) : n.Plain := by
  obtain ⟨hs, hh⟩ := ElementNames.of_eq_ok h
  exact ⟨Catalog.isPlain_spell hc Spelling.plain_storage hs,
    Catalog.isPlain_spell hc Spelling.plain_human hh⟩

omit hc in
theorem plain_family {head parts storage test : String} (hh : isPlain head = true)
    (hp : isPlain parts = true) (hs : isPlain storage = true) (ht : isPlain test = true) :
    (WrapperNames.family head parts storage test).Plain := by
  constructor <;> simp +decide [WrapperNames.family, hh, hp, hs, ht]

theorem plain_setNames {t : ElementType} {n : SetNames} (h : SetNames.of c t = .ok n) :
    n.wrapper.Plain ∧ n.element.Plain := by
  obtain ⟨parts, element, hp, he, rfl⟩ := SetNames.of_eq_ok h
  have helement := plain_elementNames hc he
  refine ⟨plain_family (by decide) (Catalog.isPlain_spell hc Spelling.plain_classPart hp) ?_ ?_,
    helement⟩
  · simp +decide [helement.storage]
  · simp +decide [t.isPlain_ident]

theorem plain_mapNames {k v : ElementType} {n : MapNames} (h : MapNames.of c k v = .ok n) :
    n.wrapper.Plain ∧ n.key.Plain ∧ n.value.Plain := by
  obtain ⟨keyPart, valuePart, key, value, hkp, hvp, hk, hv, rfl⟩ := MapNames.of_eq_ok h
  have hkey := plain_elementNames hc hk
  have hvalue := plain_elementNames hc hv
  have hparts : isPlain (keyPart ++ valuePart) = true := by
    rw [isPlain_append, Catalog.isPlain_spell hc Spelling.plain_classPart hkp,
      Catalog.isPlain_spell hc Spelling.plain_classPart hvp]
    rfl
  refine ⟨plain_family (by decide) hparts ?_ ?_, hkey, hvalue⟩
  · simp +decide [hkey.storage, hvalue.storage]
  · simp +decide [k.isPlain_ident, v.isPlain_ident]

theorem plain_setConverterNames {t : ElementType} {n : ConverterNames}
    (h : ConverterNames.ofSet c t = .ok n) : n.Plain := by
  obtain ⟨parts, human, storage, hp, hh, hs, rfl⟩ := ConverterNames.ofSet_eq_ok h
  have hp := Catalog.isPlain_spell hc Spelling.plain_functionPart hp
  have hh := Catalog.isPlain_spell hc Spelling.plain_human hh
  have hs := Catalog.isPlain_spell hc Spelling.plain_storage hs
  constructor <;> simp +decide [hp, hh, hs]

theorem plain_mapConverterNames {k v : ElementType} {n : ConverterNames}
    (h : ConverterNames.ofMap c k v = .ok n) : n.Plain := by
  obtain ⟨keyPart, valuePart, key, value, storage, hkp, hvp, hk, hv, hs, rfl⟩ :=
    ConverterNames.ofMap_eq_ok h
  have hkp := Catalog.isPlain_spell hc Spelling.plain_functionPart hkp
  have hvp := Catalog.isPlain_spell hc Spelling.plain_functionPart hvp
  have hk := Catalog.isPlain_spell hc Spelling.plain_human hk
  have hv := Catalog.isPlain_spell hc Spelling.plain_human hv
  have hs := Catalog.isPlain_spell hc Spelling.plain_storage hs
  constructor <;> simp +decide [hkp, hvp, hk, hv, hs]

end

/-! ## Arguments -/

theorem solid_method (name : String) (args : List Param) (decls stmts : List Stmt) :
    (method name args decls stmts).solid =
      (isPlain name && args.all Param.solid &&
        (Stmt.solidAll decls && Stmt.solidAll stmts && Stmt.filled (decls ++ stmts))) := by
  have hself : Param.solid selfParam = true := by decide
  simp [method, Function.hostCallable, Function.solid, hself]

theorem solid_plainParam (name : String) : (Param.plain name).solid = isPlain name := by
  simp [Param.plain, Param.solid]

@[simp] theorem solid_raiseKey (key : Expr) : (raiseKey key).solid = key.solid := by
  simp +decide [raiseKey]

@[simp] theorem hasCode_raiseKey (key : Expr) : (raiseKey key).hasCode = true := rfl

@[simp] theorem solid_raiseType (human role : String) : (raiseType human role).solid = true := by
  simp +decide [raiseType]

@[simp] theorem hasCode_raiseType (human role : String) :
    (raiseType human role).hasCode = true := rfl

/-- What a method is given of an argument is solid. -/
structure Argument.Solid (a : Argument) : Prop where
  name : isPlain a.name = true
  storage : isPlain a.names.storage = true
  recipe : a.recipe.solid = true

namespace Argument.Solid

variable {a : Argument} (h : a.Solid)
include h

theorem solid_expr : a.expr.solid = true := h.name

theorem solid_declsFor {target : String} (ht : isPlain target = true) :
    Stmt.solidAll (a.declsFor target) = true := by
  simp [declsFor, h.storage, ht, (Recipe.solid_iff.mp h.recipe).1]

theorem solid_convertInto {target : String} (ht : Nameable target) :
    Stmt.solidAll (a.convertInto target) = true := by
  obtain ⟨-, hb, hr⟩ := Recipe.solid_iff.mp h.recipe
  simp [convertInto, hb, hr, ht.plain, ht.leading]

theorem solid_convertOr {target : String} (ht : Nameable target) {fallback : List Stmt}
    (hf : (Stmt.solidAll fallback && Stmt.filled fallback) = true) :
    Stmt.solidAll (a.convertOr target fallback) = true := by
  have hinto := h.solid_convertInto ht
  unfold convertOr
  split
  · rw [Stmt.solidAll, Stmt.solid, hf, hinto]
    simp +decide [convertInto]
  · exact hinto

end Argument.Solid

theorem solid_argument {c : Catalog} (hc : c.Solid) {name : String} {t : ElementType}
    {names : ElementNames} {a : Argument} (hname : Nameable name) (hnames : names.Plain)
    (h : Argument.of c name t names = .ok a) : a.Solid := by
  obtain ⟨recipe, hr, rfl⟩ := Argument.of_eq_ok h
  have hsource : (Expr.name name).solid = true := hname.plain
  exact ⟨hname.plain, hnames.storage, Catalog.solid_toStorage hc hsource hname.leading hr⟩

section
variable {t : ElementType} {subject : Expr} (hs : subject.solid = true)
include hs

theorem solid_typeCheck {c : Catalog} {accepted : Expr}
    (h : typeCheck c subject t = .ok accepted) : accepted.solid = true := by
  obtain ⟨kinds, -, rfl⟩ := typeCheck_eq_ok h
  simp [hs, HostKind.isPlain_name]

theorem solid_insertionGuard {g : Generator} {role : String} {guards : List Stmt}
    (h : insertionGuard g subject t role = .ok guards) : Stmt.solidAll guards = true := by
  obtain ⟨-, rfl⟩ | ⟨-, human, accepted, -, ha, rfl⟩ := insertionGuard_eq_ok h
  · rfl
  · simp +decide [solid_typeCheck hs ha]

end

/-! ## Methods -/

/-- The names inside a wrapper class are plain. -/
structure Vocabulary.Plain (w : Vocabulary) : Prop where
  pointer : isPlain w.pointer = true
  freeFlag : isPlain w.freeFlag = true
  initArg : isPlain w.initArg = true
  freeArg : isPlain w.freeArg = true
  iterator : Nameable w.iterator

theorem plain_set : Vocabulary.set.Plain :=
  ⟨by decide, by decide, by decide, by decide, by decide, by decide⟩

theorem plain_map : Vocabulary.map.Plain :=
  ⟨by decide, by decide, by decide, by decide, by decide, by decide⟩

theorem solid_self : self.solid = true ∧ self.leads = true := by decide

section
variable {a key value : Argument} {w : Vocabulary} {n : WrapperNames} {s : String} {flag : Bool}
  {accepted : Expr} {guards : List Stmt}

@[simp] theorem solid_selfField : (selfField s).solid = isPlain s := by
  simp [selfField, solid_self]

@[simp] theorem leads_selfField : (selfField s).leads = true := solid_self.2

@[simp] theorem solid_container : w.container.solid = isPlain w.pointer := solid_selfField

@[simp] theorem leads_container : w.container.leads = true := leads_selfField

@[simp] theorem solid_initial : w.initial.solid = isPlain w.initArg := rfl

@[simp] theorem solid_owns : (w.owns flag).solid = isPlain w.freeFlag := by
  simp [Vocabulary.owns]

@[simp] theorem solid_allocate : (w.allocate n).solid = (isPlain w.pointer && isPlain n.storage) := by
  simp [Vocabulary.allocate]

theorem solid_initMethod (hw : w.Plain) (hn : n.Plain) {decls : List Stmt}
    {copies : List (Expr × List Stmt)} (hd : Stmt.solidAll decls = true)
    (hc : Stmt.solidArms copies = true) : (w.initMethod n decls copies).solid = true := by
  rw [Vocabulary.initMethod, solid_method]
  simp +decide [hd, hc, Param.withDefault, Param.solid, Vocabulary.owns, Vocabulary.allocate,
    hw.pointer, hw.freeFlag, hw.initArg, hw.freeArg, hn.extensionClass, hn.storage]

theorem solid_setInitMethod (hn : n.Plain) (hv : value.Solid) :
    (setInitMethod n value).solid = true := by
  refine solid_initMethod plain_set hn (hv.solid_declsFor (by decide)) ?_
  have hs : Nameable "s" := ⟨by decide, by decide⟩
  simp +decide [isIterable, hv.solid_convertInto hs, hv.name, hn.storage]

theorem solid_storeEntry (hk : key.Solid) (hv : value.Solid) :
    Stmt.solidAll (storeEntry key value) = true := by
  obtain ⟨-, hkb, hkr⟩ := Recipe.solid_iff.mp hk.recipe
  obtain ⟨-, hvb, hvr⟩ := Recipe.solid_iff.mp hv.recipe
  simp +decide [storeEntry, hkb, hkr, hvb, hvr]

@[simp] theorem anyCode_storeEntry : Stmt.anyCode (storeEntry key value) = true := by
  simp [storeEntry]

theorem solid_entryDecls (hk : key.Solid) (hv : value.Solid) :
    Stmt.solidAll (entryDecls key value) = true := by
  simp [entryDecls, (Recipe.solid_iff.mp hk.recipe).1, (Recipe.solid_iff.mp hv.recipe).1]

theorem solid_mapInitMethod (hn : n.Plain) (hk : key.Solid) (hv : value.Solid) :
    (mapInitMethod n key value).solid = true := by
  refine solid_initMethod plain_map hn (solid_entryDecls hk hv) ?_
  simp +decide [solid_storeEntry hk hv, hk.name, hv.name, hn.storage]

theorem solid_containsMethod (hw : w.Plain) (ha : a.Solid) (hk : accepted.solid = true)
    (hs : Nameable s) : (w.containsMethod a accepted s).solid = true := by
  rw [Vocabulary.containsMethod, solid_method]
  simp +decide [ha.solid_declsFor hs.plain, ha.solid_convertOr hs, hk, solid_plainParam,
    countPositive, ha.name, hs.plain, hw.pointer]

theorem solid_removeMethod {name : String} (hname : isPlain name = true) (hw : w.Plain)
    (ha : a.Solid) (hs : Nameable s) : (w.removeMethod name a s).solid = true := by
  rw [Vocabulary.removeMethod, solid_method]
  simp +decide [ha.solid_declsFor hs.plain, ha.solid_convertInto hs, ha.solid_expr,
    solid_plainParam, solid_self, hname, ha.name, hs.plain, hw.pointer]

theorem solid_addMethod (hv : value.Solid) (hg : Stmt.solidAll guards = true) :
    (addMethod value guards).solid = true := by
  rw [addMethod, solid_method]
  have hs : Nameable "v" := ⟨by decide, by decide⟩
  simp +decide [hv.solid_declsFor, hv.solid_convertInto hs, hg, solid_plainParam, hv.name]

theorem solid_putMethod (hk : key.Solid) (hv : value.Solid) (hg : Stmt.solidAll guards = true) :
    (putMethod key value guards).solid = true := by
  rw [putMethod, solid_method]
  simp +decide [solid_entryDecls hk hv, solid_storeEntry hk hv, hg, solid_plainParam, hk.name,
    hv.name]

theorem solid_getMethod {found : Recipe} (hs : isPlain s = true) (hk : key.Solid)
    (ha : accepted.solid = true) (hf : found.solid = true) :
    (getMethod key accepted s found).solid = true := by
  obtain ⟨hd, hb, hr⟩ := Recipe.solid_iff.mp hf
  have hname : Nameable "k" := ⟨by decide, by decide⟩
  rw [getMethod, solid_method]
  simp +decide [hk.solid_declsFor, hk.solid_convertOr hname, ha, hk.solid_expr,
    solid_plainParam, countPositive, hk.name, hs, hd, hb, hr]

theorem solid_iterMethod (hw : w.Plain) (hn : n.Plain) : (w.iterMethod n).solid = true := by
  rw [Vocabulary.iterMethod, solid_method]
  simp +decide [solid_self, hw.pointer, hw.iterator.plain, hw.iterator.leading, hn.iteratorClass]

theorem solid_releaseMethod (hw : w.Plain) : w.releaseMethod.solid = true := by
  rw [Vocabulary.releaseMethod, solid_method]
  simp +decide [hw.pointer, hw.freeFlag]

theorem solid_lengthMethod (hw : w.Plain) : w.lengthMethod.solid = true := by
  rw [Vocabulary.lengthMethod, solid_method]
  simp +decide [hw.pointer]

/-- The names of an iterator are plain. -/
structure IteratorPlan.Plain (p : IteratorPlan) : Prop where
  name : isPlain p.name = true
  storage : isPlain p.storage = true
  pointer : isPlain p.pointer = true

section
variable {p : IteratorPlan} (hp : p.Plain)
include hp

theorem solid_nextMethod {item : Recipe} (hi : item.solid = true) :
    (p.nextMethod item).solid = true := by
  obtain ⟨hd, hb, hr⟩ := Recipe.solid_iff.mp hi
  rw [IteratorPlan.nextMethod, solid_method]
  simp +decide [IteratorPlan.position, hp.storage, hd, hb, hr]

theorem solid_initPosition : p.initMethod.solid = true := by
  simp +decide [IteratorPlan.initMethod, IteratorPlan.keepPosition, IteratorPlan.position,
    IteratorPlan.positionPointer, Function.solid, Function.storageLevel, Param.solid, Param.typed,
    Param.plain, selfParam, hp.storage, hp.pointer]

/-! ## Classes and fragments -/

theorem solid_classDef {c : Catalog} (hc : c.Solid) {d : ClassDef}
    (hproject : ∀ e : Expr, e.solid = true → e.leads = true →
      (p.project e).solid = true ∧ (p.project e).leads = true)
    (h : p.classDef c = .ok d) : d.solid = true := by
  obtain ⟨item, hi, h⟩ := bind_eq_ok h
  cases h
  obtain ⟨hs, hl⟩ := hproject (.deref (.name "inow")) (by decide) rfl
  have hnext := solid_nextMethod hp (Catalog.solid_toHost hc hs hl hi)
  have hrelease : IteratorPlan.releaseMethod.solid = true := by decide
  have hiter : (method "__iter__" [] [] [.give self]).solid = true := by decide
  simp +decide [ClassDef.solid, hp.name, solid_initPosition hp, hnext, hrelease, hiter]

theorem solid_interfaceClass : p.interfaceClass.solid = true := by
  simp +decide [IteratorPlan.interfaceClass, ClassDef.solid, IteratorPlan.positionPointer,
    IteratorPlan.position, Function.declaration, Function.storageLevel, Function.solid,
    Param.anonymous, Param.solid, hp.name, hp.storage]

theorem solid_interfaceFragment (hw : w.Plain) (hn : n.Plain) :
    Fragment.solid (w.interfaceFragment n p) = true := by
  simp only [Vocabulary.interfaceFragment, Fragment.solid, List.all_cons, Item.solid,
    isSafe_of_isPlain hn.publicClass, solid_interfaceClass hp]
  simp +decide [ClassDef.solid, hn.extensionClass, hn.storage, hw.pointer, hw.freeFlag]

end

theorem solid_extensionClass (hn : n.Plain) (methods : List Function) :
    (extensionClass n methods).solid = methods.all Function.solid := by
  simp [extensionClass, ClassDef.solid, hn.extensionClass]

theorem solid_publicClass (hn : n.Plain) {base doc : String} {shown : Expr}
    (hb : isPlain base = true) (hd : isDoc doc = true) (h : shown.solid = true) :
    (publicClass n base doc shown).solid = true := by
  simp +decide [publicClass, ClassDef.solid, solid_method, solid_self, hn.publicClass,
    hn.extensionClass, hb, hd, h]

theorem solid_testFragment (hn : n.Plain) {body : List Stmt}
    (h : (Stmt.solidAll body && Stmt.filled body) = true) :
    Fragment.solid (testFragment n body) = true := by
  simp only [testFragment, Fragment.solid, List.all_cons, Item.solid, Function.solid,
    Function.hostCallable, isSafe_of_isPlain hn.publicClass, hn.test, Option.all_some, h]
  rfl

theorem solid_exhaustionChecks {container : String} (hc : isPlain container = true) (m : Int) :
    Stmt.solidAll (exhaustionChecks container m) = true := by
  simp +decide [exhaustionChecks, hc]

theorem solid_setScenario (hn : n.Plain) (samples : List Literal) :
    (Stmt.solidAll (setScenario n samples) && Stmt.filled (setScenario n samples)) = true := by
  simp +decide [setScenario, assertTrue, assertLength, assertNoneAbsent, hn.publicClass,
    solid_exhaustionChecks]

theorem solid_assertSame (samples : Samples) (t : ElementType) {actual : Expr}
    (h : actual.solid = true) (expected : Literal) :
    (assertSame samples t actual expected).solid = true := by
  unfold assertSame
  cases samples.comparison t <;> simp +decide [h]

theorem solid_mapScenario (hn : n.Plain) (samples : Samples) (t : ElementType)
    (keys values : List Literal) :
    (Stmt.solidAll (mapScenario n samples t keys values) &&
      Stmt.filled (mapScenario n samples t keys values)) = true := by
  simp +decide [mapScenario, assertLength, assertNoneAbsent, hn.publicClass,
    solid_exhaustionChecks, solid_assertSame]

/-! ## Doc texts -/

theorem isDoc_append (s t : String) : isDoc (s ++ t) = (isDoc s && isDoc t) := by
  simp [isDoc]

/-- A text that is written out is checked character by character. -/
theorem isDoc_ofList (cs : List Char) : isDoc (String.ofList cs) =
    cs.all fun c => c == '\n' || (!isControl c && c != '"') := by
  rw [isDoc, String.toList_ofList]

theorem isDoc_of_isPlain (h : isPlain s = true) : isDoc s = true := by
  refine List.all_eq_true.mpr fun c hc => ?_
  have hplain := List.all_eq_true.mp h c hc
  simp only [isInline, Bool.and_eq_true] at hplain
  simp [hplain.1.1, hplain.2]

set_option maxRecDepth 4000 in
theorem isDoc_setDoc (h : isPlain s = true) : isDoc (setDoc s) = true := by
  unfold setDoc
  rw [isDoc_append, isDoc_append, isDoc_of_isPlain h, Bool.and_true, Bool.and_eq_true]
  constructor
  · decide
  · exact (isDoc_ofList _).trans (by decide +kernel)

set_option maxRecDepth 4000 in
theorem isDoc_mapDoc {t : String} (hs : isPlain s = true) (ht : isPlain t = true) :
    isDoc (mapDoc s t) = true := by
  unfold mapDoc
  rw [isDoc_append, isDoc_append, isDoc_append, isDoc_append, isDoc_of_isPlain hs,
    isDoc_of_isPlain ht, Bool.and_true, Bool.and_true, Bool.and_eq_true, Bool.and_eq_true]
  refine ⟨⟨?_, ?_⟩, ?_⟩
  · decide
  · decide
  · exact (isDoc_ofList _).trans (by decide +kernel)

/-! ## Converters -/

theorem solid_converter {returns name type param : String} {r : Recipe}
    (hreturns : isPlain returns = true) (hname : isPlain name = true) (htype : isPlain type = true)
    (hparam : isPlain param = true) (hr : r.solid = true) :
    (converter returns name (.typed type param) r).solid = true := by
  obtain ⟨hd, hb, hres⟩ := Recipe.solid_iff.mp hr
  simp [converter, Function.storageLevel, Function.solid, Param.typed, Param.solid, hreturns, hname,
    htype, hparam, hd, hb, hres]

theorem solid_declaration {f : Function} (h : f.solid = true) : f.declaration.solid = true := by
  simp only [Function.solid, Function.declaration, Bool.and_eq_true] at h ⊢
  simp [h.1.1]

end

end Bundle

namespace Generator

open Code WrapGen.Bundle

variable {g : Generator} {b : Bundle} (hc : g.catalog.Solid)
include hc

theorem solid_setWrapper {e : ElementType} (h : g.setWrapper e = .ok b) (u : CodeUnit) :
    Fragment.solid (b.get u) = true := by
  obtain ⟨names, f, samples, hnames, hf, -, rfl⟩ := setWrapper_eq_ok h
  obtain ⟨hn, helement⟩ := plain_setNames hc hnames
  have hplan : (Vocabulary.set.iteratorPlan names.wrapper e id).Plain :=
    ⟨hn.iteratorClass, hn.storage, plain_set.pointer⟩
  cases u with
  | implementation =>
    obtain ⟨value, accepted, guards, iterator, hv, ha, hg, hi, rfl⟩ := setImplementation_eq_ok hf
    have hvalue := solid_argument hc ⟨by decide, by decide⟩ helement hv
    have haccepted := solid_typeCheck hvalue.solid_expr ha
    have hguards := solid_insertionGuard hvalue.solid_expr hg
    have hiterator := solid_classDef hplan hc (fun _ hs hl => ⟨hs, hl⟩) hi
    have hs : Nameable "s" := ⟨by decide, by decide⟩
    have hv : Nameable "v" := ⟨by decide, by decide⟩
    have hshown : setShown.solid = true := by decide
    simp +decide [PerUnit.get, Fragment.solid, Item.solid, isSafe_of_isPlain hn.publicClass,
      hiterator, setClass, solid_extensionClass hn, solid_setInitMethod hn hvalue,
      solid_releaseMethod plain_set, solid_containsMethod plain_set hvalue haccepted hs,
      solid_lengthMethod plain_set, solid_iterMethod plain_set hn, solid_addMethod hvalue hguards,
      solid_removeMethod _ plain_set hvalue hv,
      solid_publicClass hn _ (isDoc_setDoc helement.human) hshown]
  | interface => exact solid_interfaceFragment hplan plain_set hn
  | tests => exact solid_testFragment hn (solid_setScenario hn _)

theorem solid_mapWrapper {k v : ElementType} (h : g.mapWrapper k v = .ok b) (u : CodeUnit) :
    Fragment.solid (b.get u) = true := by
  obtain ⟨names, f, keys, values, hnames, hf, -, -, rfl⟩ := mapWrapper_eq_ok h
  obtain ⟨hn, hkeyNames, hvalueNames⟩ := plain_mapNames hc hnames
  have hplan : (Vocabulary.map.iteratorPlan names.wrapper k keyAt).Plain :=
    ⟨hn.iteratorClass, hn.storage, plain_map.pointer⟩
  cases u with
  | implementation =>
    obtain ⟨key, value, found, accepted, keyGuards, valueGuards, iterator, hk, hv, hfound, ha, hkg,
      hvg, hi, rfl⟩ := mapImplementation_eq_ok hf
    have hkey := solid_argument hc ⟨by decide, by decide⟩ hkeyNames hk
    have hvalue := solid_argument hc ⟨by decide, by decide⟩ hvalueNames hv
    have haccepted := solid_typeCheck hkey.solid_expr ha
    have hguards : Stmt.solidAll (keyGuards ++ valueGuards) = true := by
      simp [solid_insertionGuard hkey.solid_expr hkg, solid_insertionGuard hvalue.solid_expr hvg]
    have hget := solid_getMethod hvalueNames.storage hkey haccepted
      (Catalog.solid_toHost hc (by decide) (by decide) hfound)
    have hiterator := solid_classDef hplan hc
      (fun _ hs hl => ⟨Bool.and_eq_true_iff.mpr ⟨hs, by decide⟩, hl⟩) hi
    have hk : Nameable "k" := ⟨by decide, by decide⟩
    have hshown : mapShown.solid = true := by decide
    simp +decide [PerUnit.get, Fragment.solid, Item.solid, isSafe_of_isPlain hn.publicClass,
      hiterator, mapClass, solid_extensionClass hn, solid_mapInitMethod hn hkey hvalue,
      solid_releaseMethod plain_map, solid_containsMethod plain_map hkey haccepted hk,
      solid_lengthMethod plain_map, solid_iterMethod plain_map hn, hget,
      solid_putMethod hkey hvalue hguards, solid_removeMethod _ plain_map hkey hk,
      solid_publicClass hn _ (isDoc_mapDoc hkeyNames.human hvalueNames.human) hshown]
  | interface => exact solid_interfaceFragment hplan plain_map hn
  | tests => exact solid_testFragment hn (solid_mapScenario hn _ _ _ _)

theorem solid_converters {names : ConverterNames} {t : ElementType} {kind : HostKind}
    {hostParam storageParam : String} (hn : names.Plain) (hhost : Nameable hostParam)
    (hstorage : Nameable storageParam)
    (h : g.converters names t kind hostParam storageParam = .ok b) (u : CodeUnit) :
    Fragment.solid (b.get u) = true := by
  obtain ⟨inward, outward, hin, hout, rfl⟩ := converters_eq_ok h
  have hfrom : (Expr.name hostParam).solid = true := hhost.plain
  have hto : (Expr.name storageParam).solid = true := hstorage.plain
  have hstore := solid_converter hn.storage hn.toStorage kind.isPlain_name hhost.plain
    (Catalog.solid_toStorage hc hfrom hhost.leading hin)
  have hload := solid_converter kind.isPlain_name hn.toHost hn.storage hstorage.plain
    (Catalog.solid_toHost hc hto hstorage.leading hout)
  cases u with
  | implementation =>
    simp [PerUnit.get, ofConverters, Fragment.solid, Item.solid, isSafe_of_isPlain hn.comment,
      hstore, hload]
  | interface =>
    simp [PerUnit.get, ofConverters, Fragment.solid, Item.solid, isSafe_of_isPlain hn.comment,
      solid_declaration hstore, solid_declaration hload]
  | tests => rfl

/-- The bundle of every request is solid when the catalog is. -/
theorem solid_bundle {request : Request} (h : request.bundle g = .ok b) (u : CodeUnit) :
    Fragment.solid (b.get u) = true := by
  have hmade := mapError_eq_ok_iff.mp h
  cases request with
  | set e => exact solid_setWrapper hc hmade u
  | map k v => exact solid_mapWrapper hc hmade u
  | setConverters e =>
    obtain ⟨names, hnames, hmade⟩ := setConverters_eq_ok hmade
    exact solid_converters hc (plain_setConverterNames hc hnames) ⟨by decide, by decide⟩
      ⟨by decide, by decide⟩ hmade u
  | mapConverters k v =>
    obtain ⟨names, hnames, hmade⟩ := mapConverters_eq_ok hmade
    exact solid_converters hc (plain_mapConverterNames hc hnames) ⟨by decide, by decide⟩
      ⟨by decide, by decide⟩ hmade u

end Generator

/-- Generated code is made of blocks. With the built-in catalog, whatever the samples
are and whether insertion is strict, the text of every unit of every request is
indented by four spaces for each level outside doc texts, only a line that ends in a
colon is followed by a deeper one, by one level, and below every such line there is
one, one level deeper, that is neither blank nor a comment. -/
theorem code_blockStructured (samples : Samples) (insertion : Insertion) (request : Request)
    (b : Bundle) (h : request.bundle ⟨.builtin, samples, insertion⟩ = .ok b) (u : CodeUnit) :
    BlockStructured (Code.Fragment.text (b.get u)) :=
  Code.Fragment.blockStructured_text (Generator.solid_bundle Catalog.solid_builtin h u)

/-- The wrapper of a map to vectors of maps, with loops in loops and checks before them. -/
theorem code_blockStructured_nested :
    ∃ b, (Request.map (.primitive .str)
        (.vector (.map (.primitive .int32) (.set (.primitive .float64))))).bundle
          ⟨.builtin, .builtin, .strict⟩ = .ok b ∧
      ∀ u, BlockStructured (Code.Fragment.text (b.get u)) :=
  ⟨_, rfl, code_blockStructured .builtin .strict
    (.map (.primitive .str) (.vector (.map (.primitive .int32) (.set (.primitive .float64))))) _
    rfl⟩

end WrapGen
